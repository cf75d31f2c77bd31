import Mathlib
import SwaptoshiService.Lib.Tree

/-!
# Texts of JSON values

`text` writes a value as `JSON.stringify` does. A machine that goes through a text knows whether it
is in a string, and how many brackets are open. The text of a value leaves it as it was, and
whenever it comes to a colon on the way it is in a string or within a bracket (`closed_text`).

So no text of a value is that of a value **behind a colon** (`Guarded.ne_append_colon`): a machine
that is in a string at the colon sees the quotes of the text behind it the other way round, and is
in a string at its end. Texts with names and a colon before them are the same only if the names are
(`append_colon_inj`).

A text can be read back (`text_append_inj`): its first character says what it is of, and where it
ends is told by what is in it. So two values with one text are the same (`text_injective`).
-/

namespace SwaptoshiService

namespace JsonText

def numberChars : List Char := "0123456789+-.e".toList

/-- The text of a number. -/
@[ext]
structure NumberText where
  text : List Char
  ne_nil : text ≠ []
  plain : ∀ c ∈ text, c ∈ numberChars

inductive Leaf
  | null
  | boolean (b : Bool)
  | number (n : NumberText)
  | string (s : String)

abbrev Value := Tree String Leaf

/-! ### Texts -/

def hexDigit (n : ℕ) : Char := Nat.digitChar n

/-- A character in a string. -/
def escape (c : Char) : List Char :=
  if c = '"' then ['\\', '"']
  else if c = '\\' then ['\\', '\\']
  else if c = '\x08' then ['\\', 'b']
  else if c = '\x0c' then ['\\', 'f']
  else if c = '\n' then ['\\', 'n']
  else if c = '\r' then ['\\', 'r']
  else if c = '\t' then ['\\', 't']
  else if c.toNat < 32 then
    ['\\', 'u', '0', '0', hexDigit (c.toNat / 16), hexDigit (c.toNat % 16)]
  else [c]

def quote (s : String) : List Char := '"' :: (s.toList.flatMap escape ++ ['"'])

def Leaf.text : Leaf → List Char
  | .null => "null".toList
  | .boolean true => "true".toList
  | .boolean false => "false".toList
  | .number n => n.text
  | .string s => quote s

mutual

def text : Value → List Char
  | .leaf a => a.text
  | .array items => '[' :: ([','].intercalate (itemTexts items) ++ [']'])
  | .object entries => '{' :: ([','].intercalate (entryTexts entries) ++ ['}'])

def itemTexts : List Value → List (List Char)
  | [] => []
  | x :: items => text x :: itemTexts items

def entryTexts : List (String × Value) → List (List Char)
  | [] => []
  | (k, x) :: entries => (quote k ++ ':' :: text x) :: entryTexts entries

end

/-! ### The machine -/

/-- Outside of strings, in a string, or behind a backslash. -/
inductive Mode
  | out
  | str
  | esc
deriving DecidableEq

structure State where
  mode : Mode
  depth : ℤ
deriving DecidableEq

/-- A backslash outside of strings has no meaning. -/
def step (s : State) (c : Char) : Option State :=
  match s.mode with
  | .out =>
    if c = '"' then some ⟨.str, s.depth⟩
    else if c = '\\' then none
    else if c = '[' ∨ c = '{' then some ⟨.out, s.depth + 1⟩
    else if c = ']' ∨ c = '}' then some ⟨.out, s.depth - 1⟩
    else some s
  | .str =>
    if c = '"' then some ⟨.out, s.depth⟩
    else if c = '\\' then some ⟨.esc, s.depth⟩
    else some s
  | .esc => some ⟨.str, s.depth⟩

def run : State → List Char → Option State
  | s, [] => some s
  | s, c :: t => (step s c).bind fun s' => run s' t

section Machine

variable {s s' a b a' b' : State} {c : Char} {t u w : List Char} {d : ℤ}

theorem run_append (s : State) (u w : List Char) :
    run s (u ++ w) = (run s u).bind fun s' => run s' w := by
  induction u generalizing s with
  | nil => rfl
  | cons c u ih =>
    rw [List.cons_append, run, run]
    cases step s c with
    | none => rfl
    | some s' => exact ih s'

/-- The state is as wanted on the whole way. -/
def Along (P : State → Prop) : State → List Char → Prop
  | s, [] => P s
  | s, c :: t => P s ∧ ∃ s', step s c = some s' ∧ Along P s' t

theorem Along.of_append {P : State → Prop} (h : Along P s (u ++ w)) :
    ∃ s', run s u = some s' ∧ P s' := by
  induction u generalizing s with
  | nil =>
    cases w with
    | nil => exact ⟨s, rfl, h⟩
    | cons c w => exact ⟨s, rfl, h.1⟩
  | cons c u ih =>
    obtain ⟨-, s', hstep, hrest⟩ := h
    obtain ⟨s'', hrun, hP⟩ := ih hrest
    exact ⟨s'', by rw [run, hstep]; exact hrun, hP⟩

theorem Along.append {P : State → Prop} (h : Along P s u) (hrun : run s u = some s')
    (h' : Along P s' w) : Along P s (u ++ w) := by
  induction u generalizing s with
  | nil =>
    obtain rfl := Option.some.inj hrun
    exact h'
  | cons c u ih =>
    obtain ⟨hP, s'', hstep, hrest⟩ := h
    rw [run, hstep] at hrun
    exact ⟨hP, s'', hstep, ih hrest hrun⟩

theorem Along.mono {P Q : State → Prop} (hPQ : ∀ s, P s → Q s) (h : Along P s t) :
    Along Q s t := by
  induction t generalizing s with
  | nil => exact hPQ s h
  | cons c t ih =>
    obtain ⟨hP, s', hstep, hrest⟩ := h
    exact ⟨hPQ s hP, s', hstep, ih hrest⟩

/-- Of two machines one is in a string and the other one is not. -/
def Opposite (a b : State) : Prop :=
  (a.mode = .out ∧ b.mode = .str) ∨ (a.mode = .str ∧ b.mode = .out)

/-- They see each quote the other way round. -/
theorem Opposite.step (h : Opposite a b) (ha : step a c = some a') (hb : step b c = some b') :
    Opposite a' b' := by
  obtain ⟨ma, da⟩ := a
  obtain ⟨mb, db⟩ := b
  rcases h with ⟨hma, hmb⟩ | ⟨hma, hmb⟩
  · obtain rfl : ma = .out := hma
    obtain rfl : mb = .str := hmb
    simp only [JsonText.step] at ha hb
    split_ifs at ha hb <;> obtain rfl := Option.some.inj ha <;> obtain rfl := Option.some.inj hb
    · exact .inr ⟨rfl, rfl⟩
    all_goals exact .inl ⟨rfl, rfl⟩
  · obtain rfl : ma = .str := hma
    obtain rfl : mb = .out := hmb
    simp only [JsonText.step] at ha hb
    split_ifs at ha hb <;> obtain rfl := Option.some.inj ha <;> obtain rfl := Option.some.inj hb
    · exact .inl ⟨rfl, rfl⟩
    all_goals exact .inr ⟨rfl, rfl⟩

theorem Opposite.run (h : Opposite a b) (ha : run a t = some a') (hb : run b t = some b') :
    Opposite a' b' := by
  induction t generalizing a b with
  | nil =>
    obtain rfl := Option.some.inj ha
    obtain rfl := Option.some.inj hb
    exact h
  | cons c t ih =>
    obtain ⟨a'', ha'', ha⟩ := Option.bind_eq_some_iff.mp ha
    obtain ⟨b'', hb'', hb⟩ := Option.bind_eq_some_iff.mp hb
    exact ih (h.step ha'' hb'') ha hb

end Machine

/-! ### Texts of values -/

/-- The machine is where it was, and was not below. -/
structure Closed (t : List Char) : Prop where
  run : ∀ d, run ⟨.out, d⟩ t = some ⟨.out, d⟩
  along : ∀ d, Along (fun s => d ≤ s.depth) ⟨.out, d⟩ t

/-- At a colon the machine is in a string or within a bracket. -/
def Guarded (t : List Char) : Prop :=
  ∀ d u w, t = u ++ ':' :: w → ∃ s, run ⟨.out, d⟩ u = some s ∧ (s.mode ≠ .out ∨ d < s.depth)

section Texts

variable {t t' : List Char}

theorem closed_nil : Closed [] := ⟨fun _ => rfl, fun _ => le_rfl⟩

theorem Closed.append (h : Closed t) (h' : Closed t') : Closed (t ++ t') where
  run d := by
    rw [run_append, h.run]
    exact h'.run d
  along d := (h.along d).append (h.run d) (h'.along d)

/-- Characters that structure a text, but for the colon. -/
def structural : List Char := ['"', '\\', '[', ']', '{', '}']

theorem step_plain {c : Char} (h : c ∉ structural) (d : ℤ) : step ⟨.out, d⟩ c = some ⟨.out, d⟩ := by
  simp only [structural, List.mem_cons, List.not_mem_nil, or_false, not_or] at h
  obtain ⟨h₁, h₂, h₃, h₄, h₅, h₆⟩ := h
  simp [step, h₁, h₂, h₃, h₄, h₅, h₆]

theorem closed_plain (h : ∀ c ∈ t, c ∉ structural) : Closed t := by
  induction t with
  | nil => exact closed_nil
  | cons c t ih =>
    obtain ⟨hc, ht⟩ := List.forall_mem_cons.mp h
    have hstep := step_plain hc
    have hrest := ih ht
    exact ⟨fun d => by rw [JsonText.run, hstep]; exact hrest.run d,
      fun d => ⟨le_rfl, _, hstep d, hrest.along d⟩⟩

theorem guarded_of_notMem (h : ':' ∉ t) : Guarded t := by
  rintro d u w rfl
  exact absurd (List.mem_append_right u List.mem_cons_self) h

/-- A character of a text that is not its last one is in what is before that. -/
theorem exists_of_concat_eq {c d : Char} {u w : List Char} (h : t ++ [c] = u ++ d :: w)
    (hne : d ≠ c) : ∃ w', t = u ++ d :: w' := by
  rcases List.eq_nil_or_concat w with rfl | ⟨w', c', rfl⟩
  · exact absurd (List.cons.inj (List.append_inj' h rfl).2).1.symm hne
  · have h : t ++ [c] = (u ++ d :: w') ++ [c'] := by simpa using h
    exact ⟨w', (List.append_inj' h rfl).1⟩

/-- A literal. -/
theorem closed_literal (h : t.all fun c => c ∉ structural) (hcolon : ':' ∉ t) :
    Closed t ∧ Guarded t :=
  ⟨closed_plain (List.all_iff_forall_prop.mp h), guarded_of_notMem hcolon⟩

/-- A text in brackets. -/
theorem Closed.bracket (h : Closed t) {opening closing : Char} (hopening : opening ∈ ['[', '{'])
    (hclosing : closing ∈ [']', '}']) :
    Closed (opening :: (t ++ [closing])) ∧ Guarded (opening :: (t ++ [closing])) := by
  have hopen (d : ℤ) : step ⟨.out, d⟩ opening = some ⟨.out, d + 1⟩ := by
    simp only [List.mem_cons, List.not_mem_nil, or_false] at hopening
    rcases hopening with rfl | rfl <;> rfl
  have hclose (d : ℤ) : step ⟨.out, d + 1⟩ closing = some ⟨.out, d⟩ := by
    simp only [List.mem_cons, List.not_mem_nil, or_false] at hclosing
    rcases hclosing with rfl | rfl <;> simp [step]
  refine ⟨⟨fun d => ?_, fun d => ⟨le_rfl, _, hopen d, ?_⟩⟩, fun d u w hsplit => ?_⟩
  · rw [JsonText.run, hopen, Option.bind_some, run_append, h.run, Option.bind_some, JsonText.run,
      hclose]
    rfl
  · have hdown : Along (fun s => d ≤ s.depth) ⟨.out, d + 1⟩ [closing] :=
      ⟨(lt_add_one d).le, _, hclose d, le_rfl⟩
    have hup := (h.along (d + 1)).mono fun s hs => (lt_add_one d).le.trans hs
    exact hup.append (h.run (d + 1)) hdown
  · cases u with
    | nil =>
      obtain rfl := (List.cons.inj hsplit).1
      exact absurd hopening (by decide)
    | cons c u =>
      obtain ⟨rfl, hrest⟩ := List.cons.inj hsplit
      have hne : ':' ≠ closing := by
        rintro rfl
        exact absurd hclosing (by decide)
      -- The colon is not the closing bracket, so it is in the text.
      obtain ⟨w', rfl⟩ := exists_of_concat_eq hrest hne
      obtain ⟨s, hrun, hdepth⟩ := (h.along (d + 1)).of_append
      exact ⟨s, by rw [JsonText.run, hopen]; exact hrun, .inr (Int.lt_of_add_one_le hdepth)⟩

/-- In a string a character is read without leaving it. -/
theorem run_escape (c : Char) (d : ℤ) : run ⟨.str, d⟩ (escape c) = some ⟨.str, d⟩ ∧
    Along (fun s => s.mode ≠ .out ∧ s.depth = d) ⟨.str, d⟩ (escape c) := by
  have hstr : (⟨.str, d⟩ : State).mode ≠ .out ∧ (⟨.str, d⟩ : State).depth = d := ⟨nofun, rfl⟩
  have hesc : (⟨.esc, d⟩ : State).mode ≠ .out ∧ (⟨.esc, d⟩ : State).depth = d := ⟨nofun, rfl⟩
  have htwo (c' : Char) : run ⟨.str, d⟩ ['\\', c'] = some ⟨.str, d⟩ ∧
      Along (fun s => s.mode ≠ .out ∧ s.depth = d) ⟨.str, d⟩ ['\\', c'] :=
    ⟨rfl, hstr, _, rfl, hesc, _, rfl, hstr⟩
  have hplain {c : Char} (hquote : c ≠ '"') (hback : c ≠ '\\') :
      step ⟨.str, d⟩ c = some ⟨.str, d⟩ := by simp [step, hquote, hback]
  have hdigit {n : ℕ} (hn : n < 16) : step ⟨.str, d⟩ (hexDigit n) = some ⟨.str, d⟩ := by
    have hall : ∀ n < 16, hexDigit n ≠ '"' ∧ hexDigit n ≠ '\\' := by decide
    exact hplain (hall n hn).1 (hall n hn).2
  fun_cases escape c with
  | case8 =>
    have hlow : c.toNat / 16 < 16 := by omega
    have hhigh : c.toNat % 16 < 16 := Nat.mod_lt _ (by decide)
    have hrest : run ⟨.str, d⟩ [hexDigit (c.toNat / 16), hexDigit (c.toNat % 16)] =
        some ⟨.str, d⟩ := by
      rw [run, hdigit hlow, Option.bind_some, run, hdigit hhigh]
      rfl
    exact ⟨hrest, hstr, _, rfl, hesc, _, rfl, hstr, _, rfl, hstr, _, rfl, hstr, _, hdigit hlow,
      hstr, _, hdigit hhigh, hstr⟩
  | case9 hquote hback =>
    have hstep := hplain hquote hback
    exact ⟨by rw [run, hstep]; rfl, hstr, _, hstep, hstr⟩
  -- The other characters are written as a backslash and a letter.
  | _ => exact htwo _

theorem run_escapes (cs : List Char) (d : ℤ) :
    run ⟨.str, d⟩ (cs.flatMap escape) = some ⟨.str, d⟩ ∧
      Along (fun s => s.mode ≠ .out ∧ s.depth = d) ⟨.str, d⟩ (cs.flatMap escape) := by
  induction cs with
  | nil => exact ⟨rfl, nofun, rfl⟩
  | cons c cs ih =>
    obtain ⟨hrun, halong⟩ := run_escape c d
    rw [List.flatMap_cons, run_append, hrun]
    exact ⟨ih.1, halong.append hrun ih.2⟩

/-- A string. -/
theorem closed_quote (s : String) : Closed (quote s) ∧ Guarded (quote s) := by
  obtain ⟨hrun, halong⟩ : (∀ d, run ⟨.str, d⟩ (s.toList.flatMap escape) = some ⟨.str, d⟩) ∧
      ∀ d, Along (fun s => s.mode ≠ .out ∧ s.depth = d) ⟨.str, d⟩ (s.toList.flatMap escape) :=
    ⟨fun d => (run_escapes _ d).1, fun d => (run_escapes _ d).2⟩
  refine ⟨⟨fun d => ?_, fun d => ⟨le_rfl, _, rfl, ?_⟩⟩, fun d u w hsplit => ?_⟩
  · rw [quote, run, step, if_pos rfl, Option.bind_some, run_append, hrun]
    rfl
  · exact ((halong d).mono fun s hs => hs.2.ge).append (hrun d) ⟨le_rfl, _, rfl, le_rfl⟩
  · cases u with
    | nil => cases (List.cons.inj hsplit).1
    | cons c u =>
      obtain ⟨rfl, hrest⟩ := List.cons.inj hsplit
      obtain ⟨w', hw⟩ := exists_of_concat_eq hrest (by decide)
      obtain ⟨s', hrun', hmode, -⟩ := (hw ▸ halong d).of_append
      exact ⟨s', hrun', .inl hmode⟩

theorem closed_intercalate {ts : List (List Char)} (h : ∀ t ∈ ts, Closed t) :
    Closed ([','].intercalate ts) := by
  have hcomma : Closed [','] := closed_plain (List.all_iff_forall_prop.mp (by decide))
  induction ts with
  | nil => exact closed_nil
  | cons t ts ih =>
    obtain ⟨ht, hts⟩ := List.forall_mem_cons.mp h
    cases ts with
    | nil => simpa using ht
    | cons t' ts =>
      rw [List.intercalate_cons_cons, List.append_assoc]
      exact ht.append (hcomma.append (ih hts))

theorem Leaf.closed_text (a : Leaf) : Closed a.text ∧ Guarded a.text := by
  cases a with
  | null => exact closed_literal (by decide) (by decide)
  | boolean b =>
    cases b with
    | true => exact closed_literal (by decide) (by decide)
    | false => exact closed_literal (by decide) (by decide)
  | number n =>
    have hplain : ∀ c ∈ numberChars, c ∉ structural :=
      List.all_iff_forall_prop.mp (by decide)
    have hcolon : ':' ∉ numberChars := by decide
    exact ⟨closed_plain fun c hc => hplain c (n.plain c hc),
      guarded_of_notMem fun hmem => hcolon (n.plain ':' hmem)⟩
  | string s => exact closed_quote s

theorem itemTexts_eq_map (items : List Value) : itemTexts items = items.map text := by
  induction items with
  | nil => rfl
  | cons x items ih => rw [itemTexts, ih, List.map_cons]

theorem entryTexts_eq_map (entries : List (String × Value)) :
    entryTexts entries = entries.map fun e => quote e.1 ++ ':' :: text e.2 := by
  induction entries with
  | nil => rfl
  | cons e entries ih =>
    obtain ⟨k, x⟩ := e
    rw [entryTexts, ih, List.map_cons]

/-- **The text of a value.** -/
theorem closed_text (v : Value) : Closed (text v) ∧ Guarded (text v) := by
  induction v using Tree.induction with
  | leaf a =>
    rw [text]
    exact a.closed_text
  | array items ih =>
    rw [text, itemTexts_eq_map]
    refine (closed_intercalate ?_).bracket (by decide) (by decide)
    exact List.forall_mem_map.mpr fun x hx => (ih x hx).1
  | object entries ih =>
    rw [text, entryTexts_eq_map]
    refine (closed_intercalate ?_).bracket (by decide) (by decide)
    have hcolon : Closed [':'] := closed_plain (List.all_iff_forall_prop.mp (by decide))
    exact List.forall_mem_map.mpr fun e he =>
      (closed_quote e.1).1.append (hcolon.append (ih e he).1)

/-- **A colon.** No text that is guarded is one that is closed, behind a colon. -/
theorem Guarded.ne_append_colon (hguarded : Guarded t) (hclosed : Closed t) (h' : Closed t')
    (u : List Char) : t ≠ u ++ ':' :: t' := by
  intro hsplit
  obtain ⟨s, hu, hs⟩ := hguarded 0 u t' hsplit
  have hrun := hclosed.run 0
  rw [hsplit, run_append, hu, Option.bind_some] at hrun
  obtain ⟨s', hcolon, hrest⟩ := Option.bind_eq_some_iff.mp hrun
  obtain ⟨mode, depth⟩ := s
  cases mode with
  | out =>
    -- The brackets that are open at the colon are never closed.
    obtain rfl := Option.some.inj hcolon
    have hsame := (h'.run depth).symm.trans hrest
    obtain rfl : depth = 0 := congrArg State.depth (Option.some.inj hsame)
    exact hs.elim (absurd rfl) (lt_irrefl 0)
  | str =>
    obtain rfl := Option.some.inj hcolon
    have hopposite : Opposite ⟨.out, 0⟩ ⟨.str, depth⟩ := .inl ⟨rfl, rfl⟩
    rcases hopposite.run (h'.run 0) hrest with ⟨-, hmode⟩ | ⟨hmode, -⟩ <;> cases hmode
  | esc =>
    obtain rfl := Option.some.inj hcolon
    have hopposite : Opposite ⟨.out, 0⟩ ⟨.str, depth⟩ := .inl ⟨rfl, rfl⟩
    rcases hopposite.run (h'.run 0) hrest with ⟨-, hmode⟩ | ⟨hmode, -⟩ <;> cases hmode

/-- Two names with texts behind a colon. -/
theorem append_colon_inj {m m' : List Char} (ht : Closed t ∧ Guarded t)
    (ht' : Closed t' ∧ Guarded t') (h : m ++ ':' :: t = m' ++ ':' :: t') : m = m' ∧ t = t' := by
  rcases List.append_eq_append_iff.mp h with ⟨w, rfl, hw⟩ | ⟨w, rfl, hw⟩
  · cases w with
    | nil => exact ⟨(List.append_nil m).symm, (List.cons.inj hw).2⟩
    | cons c w =>
      obtain ⟨rfl, hrest⟩ := List.cons.inj hw
      exact absurd hrest (ht.2.ne_append_colon ht.1 ht'.1 w)
  · cases w with
    | nil => exact ⟨List.append_nil m', (List.cons.inj hw).2.symm⟩
    | cons c w =>
      obtain ⟨rfl, hrest⟩ := List.cons.inj hw
      exact absurd hrest (ht'.2.ne_append_colon ht'.1 ht.1 w)

end Texts

/-! ### Values of a text -/

section Reading

variable {t t' : List Char} {u u' : List Char}

/-- What comes behind the text of a value. -/
def Delimited (u : List Char) : Prop := ∀ c ∈ u.head?, c ∈ [',', ']', '}']

theorem delimited_nil : Delimited [] := nofun

theorem delimited_cons {c : Char} (hc : c ∈ [',', ']', '}']) : Delimited (c :: u) := by
  rintro _ ⟨⟩
  exact hc

/-! #### Strings -/

def hexValue (c : Char) : ℕ := if c.isDigit then c.toNat - '0'.toNat else c.toNat - 'a'.toNat + 10

/-- A character of a string, and what is behind it. -/
def unescape : List Char → Option (Char × List Char)
  | '\\' :: 'u' :: '0' :: '0' :: a :: b :: u =>
    some (Char.ofNat (16 * hexValue a + hexValue b), u)
  | '\\' :: 'b' :: u => some ('\x08', u)
  | '\\' :: 'f' :: u => some ('\x0c', u)
  | '\\' :: 'n' :: u => some ('\n', u)
  | '\\' :: 'r' :: u => some ('\r', u)
  | '\\' :: 't' :: u => some ('\t', u)
  | '\\' :: c :: u => some (c, u)
  | '"' :: _ => none
  | c :: u => some (c, u)
  | [] => none

theorem unescape_plain {c : Char} (hquote : c ≠ '"') (hback : c ≠ '\\') (u : List Char) :
    unescape (c :: u) = some (c, u) := by
  unfold unescape
  split <;> simp_all

theorem unescape_escape (c : Char) (u : List Char) :
    unescape (escape c ++ u) = some (c, u) := by
  fun_cases escape c with
  | case8 _ _ _ _ _ _ _ hlow =>
    have hall : ∀ n < 32, Char.ofNat (16 * hexValue (hexDigit (n / 16)) +
        hexValue (hexDigit (n % 16))) = Char.ofNat n := by decide
    have hchar := hall c.toNat hlow
    rw [Char.ofNat_toNat] at hchar
    simp [unescape, hchar]
  | case9 hquote hback => exact unescape_plain hquote hback u
  | _ =>
    subst c
    rfl

theorem escapes_append_inj {cs cs' : List Char}
    (h : cs.flatMap escape ++ '"' :: u = cs'.flatMap escape ++ '"' :: u') :
    cs = cs' ∧ u = u' := by
  induction cs generalizing cs' with
  | nil =>
    cases cs' with
    | nil => exact ⟨rfl, (List.cons.inj h).2⟩
    | cons c' cs' =>
      have hread := congrArg unescape h
      rw [List.flatMap_cons, List.append_assoc, unescape_escape] at hread
      cases hread
  | cons c cs ih =>
    have hread := congrArg unescape h
    rw [List.flatMap_cons, List.append_assoc, unescape_escape] at hread
    cases cs' with
    | nil => cases hread
    | cons c' cs' =>
      rw [List.flatMap_cons, List.append_assoc, unescape_escape] at hread
      obtain ⟨rfl, hrest⟩ := Prod.mk.inj (Option.some.inj hread)
      obtain ⟨rfl, hu⟩ := ih hrest
      exact ⟨rfl, hu⟩

theorem quote_append_inj {s s' : String} (h : quote s ++ u = quote s' ++ u') :
    s = s' ∧ u = u' := by
  have h := (List.cons.inj h).2
  simp only [List.append_eq, List.append_assoc, List.singleton_append] at h
  obtain ⟨hs, hu⟩ := escapes_append_inj h
  exact ⟨String.ext hs, hu⟩

/-! #### Numbers -/

theorem NumberText.append_inj {n n' : NumberText} (hu : Delimited u) (hu' : Delimited u')
    (h : n.text ++ u = n'.text ++ u') : n = n' ∧ u = u' := by
  have hread {n : NumberText} {u : List Char} (hu : Delimited u) :
      (n.text ++ u).takeWhile (· ∈ numberChars) = n.text := by
    rw [List.takeWhile_append_of_pos (by simpa using n.plain)]
    cases u with
    | nil => simp
    | cons c u =>
      have hstop : ∀ c ∈ [',', ']', '}'], c ∉ numberChars :=
        List.all_iff_forall_prop.mp (by decide)
      have hc : c ∉ numberChars := hstop c (hu c rfl)
      simp [hc]
  have htext : n.text = n'.text := by rw [← hread hu, h, hread hu']
  exact ⟨NumberText.ext htext, List.append_cancel_left (htext ▸ h)⟩

/-! #### Values -/

/-- What a text is of. -/
inductive Kind
  | null
  | true
  | false
  | number
  | string
  | array
  | object
deriving DecidableEq

def kindOf (c : Char) : Option Kind :=
  if c = 'n' then some .null
  else if c = 't' then some .true
  else if c = 'f' then some .false
  else if c ∈ numberChars then some .number
  else if c = '"' then some .string
  else if c = '[' then some .array
  else if c = '{' then some .object
  else none

def kind : Value → Kind
  | .leaf .null => .null
  | .leaf (.boolean true) => .true
  | .leaf (.boolean false) => .false
  | .leaf (.number _) => .number
  | .leaf (.string _) => .string
  | .array _ => .array
  | .object _ => .object

/-- The first character says what the text is of. -/
theorem kindOf_head (v : Value) (u : List Char) :
    (text v ++ u).head?.bind kindOf = some (kind v) := by
  rcases v with (_ | (_ | _) | n | s) | items | entries
  iterate 3 rfl
  · cases htext : n.text with
    | nil => exact absurd htext n.ne_nil
    | cons c t =>
      have hc : c ∈ numberChars := n.plain c (htext ▸ List.mem_cons_self)
      have hall : ∀ c ∈ numberChars, kindOf c = some .number :=
        List.all_iff_forall_prop.mp (by decide)
      change (n.text ++ u).head?.bind kindOf = some .number
      rw [htext]
      exact hall c hc
  all_goals rfl

theorem kind_eq_of_append_eq {v v' : Value} (h : text v ++ u = text v' ++ u') :
    kind v = kind v' := by
  have hhead := kindOf_head v u
  rw [h, kindOf_head] at hhead
  exact (Option.some.inj hhead).symm

section Sequences

variable {α : Type} {f : α → List Char} {xs xs' : List α} {c : Char}

/-- What is left of a sequence behind one of its values, up to its bracket. -/
def commas (f : α → List Char) (xs : List α) : List Char := xs.flatMap fun x => ',' :: f x

theorem commas_cons (x : α) : commas f (x :: xs) = ',' :: (f x ++ commas f xs) := rfl

theorem delimited_commas (hc : c ∈ [']', '}']) : Delimited (commas f xs ++ c :: u) := by
  have hdelim : ∀ c ∈ [']', '}'], c ∈ [',', ']', '}'] :=
    List.all_iff_forall_prop.mp (by decide)
  cases xs with
  | nil => exact delimited_cons (hdelim c hc)
  | cons x xs => exact delimited_cons List.mem_cons_self

/-- The texts of these can be told from what is behind them. -/
def Readable (f : α → List Char) (xs : List α) : Prop :=
  ∀ x ∈ xs, ∀ {x' u u'}, Delimited u → Delimited u' → f x ++ u = f x' ++ u' → x = x' ∧ u = u'

theorem commas_append_inj (hc : c ∈ [']', '}']) (hread : Readable f xs)
    (h : commas f xs ++ c :: u = commas f xs' ++ c :: u') : xs = xs' ∧ u = u' := by
  have hcomma : ',' ≠ c := by
    rintro rfl
    exact absurd hc (by decide)
  induction xs generalizing xs' with
  | nil =>
    cases xs' with
    | nil => exact ⟨rfl, (List.cons.inj h).2⟩
    | cons x' xs' => exact absurd (List.cons.inj h).1.symm hcomma
  | cons x xs ih =>
    cases xs' with
    | nil => exact absurd (List.cons.inj h).1 hcomma
    | cons x' xs' =>
      rw [commas_cons, commas_cons, List.cons_append, List.cons_append, List.append_assoc,
        List.append_assoc] at h
      obtain ⟨hx, hxs⟩ := List.forall_mem_cons.mp hread
      obtain ⟨rfl, hrest⟩ := hx (delimited_commas hc) (delimited_commas hc) (List.cons.inj h).2
      obtain ⟨rfl, hu⟩ := ih hxs hrest
      exact ⟨rfl, hu⟩

theorem intercalate_map_cons (x : α) (xs : List α) :
    [','].intercalate ((x :: xs).map f) = f x ++ commas f xs := by
  induction xs generalizing x with
  | nil => simp [commas]
  | cons x' xs ih =>
    have hrest := ih x'
    rw [List.map_cons] at hrest
    rw [List.map_cons, List.map_cons, List.intercalate_cons_cons, hrest, commas_cons,
      List.append_assoc, List.singleton_append]

/-- **Sequences** with commas between their values, up to a bracket. -/
theorem intercalate_append_inj (hc : c ∈ [']', '}']) (hhead : ∀ x, ∃ c' t, f x = c' :: t ∧ c' ≠ c)
    (hread : Readable f xs)
    (h : [','].intercalate (xs.map f) ++ c :: u = [','].intercalate (xs'.map f) ++ c :: u') :
    xs = xs' ∧ u = u' := by
  cases xs with
  | nil =>
    cases xs' with
    | nil => exact ⟨rfl, (List.cons.inj h).2⟩
    | cons x' xs' =>
      obtain ⟨c', t, htext, hne⟩ := hhead x'
      rw [intercalate_map_cons, htext] at h
      exact absurd (List.cons.inj h).1.symm hne
  | cons x xs =>
    cases xs' with
    | nil =>
      obtain ⟨c', t, htext, hne⟩ := hhead x
      rw [intercalate_map_cons, htext] at h
      exact absurd (List.cons.inj h).1 hne
    | cons x' xs' =>
      rw [intercalate_map_cons, intercalate_map_cons, List.append_assoc, List.append_assoc] at h
      obtain ⟨hx, hxs⟩ := List.forall_mem_cons.mp hread
      obtain ⟨rfl, hrest⟩ := hx (delimited_commas hc) (delimited_commas hc) h
      obtain ⟨rfl, hu⟩ := commas_append_inj hc hxs hrest
      exact ⟨rfl, hu⟩

end Sequences

/-- No value begins with a bracket that closes. -/
theorem text_head (v : Value) : ∃ c t, text v = c :: t ∧ c ≠ ']' := by
  have hhead := kindOf_head v []
  cases htext : text v with
  | nil =>
    rw [htext] at hhead
    cases hhead
  | cons c t =>
    refine ⟨c, t, rfl, ?_⟩
    rintro rfl
    rw [htext] at hhead
    cases hhead

theorem leaf_append_inj {a : Leaf} {v : Value} (hu : Delimited u) (hu' : Delimited u')
    (h : text (.leaf a) ++ u = text v ++ u') : Tree.leaf a = v ∧ u = u' := by
  have hkind := kind_eq_of_append_eq h
  rcases v with (_ | (_ | _) | n' | s') | items | entries <;>
    rcases a with _ | (_ | _) | n | s <;> cases hkind
  iterate 3 exact ⟨rfl, List.append_cancel_left h⟩
  · obtain ⟨rfl, hu⟩ := NumberText.append_inj hu hu' h
    exact ⟨rfl, hu⟩
  · obtain ⟨rfl, hu⟩ := quote_append_inj h
    exact ⟨rfl, hu⟩

theorem text_append_inj {v v' : Value} (hu : Delimited u) (hu' : Delimited u')
    (h : text v ++ u = text v' ++ u') : v = v' ∧ u = u' := by
  induction v using Tree.induction generalizing v' u u' with
  | leaf a => exact leaf_append_inj hu hu' h
  | array items ih =>
    have hkind := kind_eq_of_append_eq h
    rcases v' with (_ | (_ | _) | n' | s') | items' | entries' <;> cases hkind
    rw [text, text, itemTexts_eq_map, itemTexts_eq_map] at h
    have h := (List.cons.inj h).2
    simp only [List.append_eq, List.append_assoc, List.singleton_append] at h
    obtain ⟨rfl, hu⟩ := intercalate_append_inj (by decide) text_head (fun x hx => ih x hx) h
    exact ⟨rfl, hu⟩
  | object entries ih =>
    have hkind := kind_eq_of_append_eq h
    rcases v' with (_ | (_ | _) | n' | s') | items' | entries' <;> cases hkind
    rw [text, text, entryTexts_eq_map, entryTexts_eq_map] at h
    have h := (List.cons.inj h).2
    simp only [List.append_eq, List.append_assoc, List.singleton_append] at h
    have hread : Readable (fun e : String × Value => quote e.1 ++ ':' :: text e.2) entries := by
      rintro ⟨k, x⟩ he ⟨k', x'⟩ u u' hu hu' h
      simp only [List.append_assoc, List.cons_append] at h
      obtain ⟨rfl, hrest⟩ := quote_append_inj h
      obtain ⟨rfl, hu⟩ := ih _ he hu hu' (List.cons.inj hrest).2
      exact ⟨rfl, hu⟩
    obtain ⟨rfl, hu⟩ :=
      intercalate_append_inj (by decide) (fun e => ⟨_, _, rfl, by decide⟩) hread h
    exact ⟨rfl, hu⟩

/-- **Two values with one text are the same.** -/
theorem text_injective : Function.Injective text := by
  intro v v' h
  exact (text_append_inj delimited_nil delimited_nil (by rw [h])).1

end Reading

end JsonText

end SwaptoshiService
