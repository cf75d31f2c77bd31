import Mathlib.Data.List.Dedup
import Mathlib.Data.List.Sort
import Mathlib.Tactic.Common

/-!
# Queries over one table

A small semantics of `SELECT` and `COUNT`: rows with `NULL`s, conditions with the three truth values
of SQL, a `WHERE` that joins conditions by `AND` and `OR`, and `DISTINCT`, `ORDER BY`, `LIMIT` and
`OFFSET`.

`AND` binds tighter than `OR`, so a condition that is joined by `OR` splits the whole list in two;
`holds_split` is the rule for a list with one `OR` at most, which is all a query builder that only
appends conditions will write.
-/

namespace SwaptoshiService

namespace Sql

variable {C V : Type}

/-! ### Truth values -/

/-- `TRUE`, `FALSE`, and `none` for `UNKNOWN`. -/
abbrev Truth := Option Bool

namespace Truth

/-- `NOT`. -/
def not (t : Truth) : Truth := t.map Bool.not

/-- `AND`. -/
def and : Truth → Truth → Truth
  | some false, _ | _, some false => some false
  | some true, some true => some true
  | _, _ => none

/-- `OR`. -/
def or : Truth → Truth → Truth
  | some true, _ | _, some true => some true
  | some false, some false => some false
  | _, _ => none

theorem and_eq_true {s t : Truth} : s.and t = some true ↔ s = some true ∧ t = some true := by
  rcases s with _ | _ | _ <;> rcases t with _ | _ | _ <;> decide

theorem or_eq_true {s t : Truth} : s.or t = some true ↔ s = some true ∨ t = some true := by
  rcases s with _ | _ | _ <;> rcases t with _ | _ | _ <;> decide

end Truth

/-! ### Conditions -/

/-- A row holds a value, or `NULL`, in every column. -/
abbrev Row (C V : Type) := C → Option V

/-- A condition on a row. -/
abbrev Cond (C V : Type) := Row C V → Truth

/-- `column op value`; unknown if one of them is `NULL`. -/
def compare (op : V → V → Bool) (c : C) (v : Option V) : Cond C V := fun r =>
  match r c, v with
  | some x, some y => some (op x y)
  | _, _ => none

/-- `column IS NULL`. -/
def isNull (c : C) : Cond C V := fun r => some (r c).isNone

/-- `column IS NOT NULL`. -/
def isNotNull (c : C) : Cond C V := fun r => some (r c).isSome

/-- `column IN (values)`. -/
def isIn (eq : V → V → Bool) (c : C) (values : List (Option V)) : Cond C V := fun r =>
  values.foldr (fun v t => (compare eq c v r).or t) (some false)

/-- All conditions, joined by `AND`. -/
def conj (cs : List (Cond C V)) : Cond C V := fun r =>
  cs.foldr (fun c t => (c r).and t) (some true)

/-- Some of the conditions, joined by `OR`. -/
def disj (cs : List (Cond C V)) : Cond C V := fun r =>
  cs.foldr (fun c t => (c r).or t) (some false)

/-- All conditions are true. -/
def All (cs : List (Cond C V)) (r : Row C V) : Prop := ∀ c ∈ cs, c r = some true

instance (cs : List (Cond C V)) (r : Row C V) : Decidable (All cs r) :=
  inferInstanceAs (Decidable (∀ c ∈ cs, c r = some true))

theorem conj_eq_true {cs : List (Cond C V)} {r : Row C V} : conj cs r = some true ↔ All cs r := by
  induction cs with
  | nil => simp [conj, All]
  | cons c cs ih =>
    have hcons : conj (c :: cs) r = (c r).and (conj cs r) := rfl
    rw [hcons, Truth.and_eq_true, ih, All, All, List.forall_mem_cons]

theorem disj_eq_true {cs : List (Cond C V)} {r : Row C V} :
    disj cs r = some true ↔ ∃ c ∈ cs, c r = some true := by
  induction cs with
  | nil => simp [disj]
  | cons c cs ih =>
    have hcons : disj (c :: cs) r = (c r).or (disj cs r) := rfl
    rw [hcons, Truth.or_eq_true, ih, List.exists_mem_cons_iff]

theorem all_append {cs cs' : List (Cond C V)} {r : Row C V} :
    All (cs ++ cs') r ↔ All cs r ∧ All cs' r := by
  simp only [All, List.forall_mem_append]

theorem all_cons {c : Cond C V} {cs : List (Cond C V)} {r : Row C V} :
    All (c :: cs) r ↔ c r = some true ∧ All cs r := by
  rw [All, List.forall_mem_cons]
  rfl

/-! ### `WHERE` -/

/-- How a condition is joined to those before it. -/
inductive Connective
  | and
  | or

/-- The conditions of a query, in order; what joins the first is not written. -/
abbrev Clauses (C V : Type) := List (Connective × Cond C V)

/-- The alternatives of a list of conditions: it is cut at every `OR`. -/
def alternatives (current : List (Cond C V)) : Clauses C V → List (List (Cond C V))
  | [] => [current]
  | (.and, c) :: rest => alternatives (current ++ [c]) rest
  | (.or, c) :: rest => current :: alternatives [c] rest

/-- `WHERE`; without conditions it is true. -/
def holds : Clauses C V → Cond C V
  | [] => fun _ => some true
  | (_, c) :: rest => disj ((alternatives [c] rest).map conj)

/-- Conditions that are all joined by `AND`. -/
def ands (cs : List (Cond C V)) : Clauses C V := cs.map fun c => (.and, c)

/-- The condition, if there is one, joined by `OR`. -/
def orClause (c : Option (Cond C V)) : Clauses C V := c.toList.map fun c => (.or, c)

theorem alternatives_ands (current cs : List (Cond C V)) (rest : Clauses C V) :
    alternatives current (ands cs ++ rest) = alternatives (current ++ cs) rest := by
  induction cs generalizing current with
  | nil => simp [ands]
  | cons c cs ih =>
    have hcons : ands (c :: cs) ++ rest = (.and, c) :: (ands cs ++ rest) := rfl
    rw [hcons, alternatives, ih, List.append_assoc, List.singleton_append]

theorem alternatives_ands_nil (current cs : List (Cond C V)) :
    alternatives current (ands cs) = [current ++ cs] := by
  rw [← List.append_nil (ands cs), alternatives_ands]
  rfl

theorem holds_ands {cs : List (Cond C V)} {r : Row C V} :
    holds (ands cs) r = some true ↔ All cs r := by
  cases cs with
  | nil => simp [ands, holds, All]
  | cons c cs =>
    have hcons : holds (ands (c :: cs)) = disj ((alternatives [c] (ands cs)).map conj) := rfl
    rw [hcons, alternatives_ands_nil, List.map_singleton, disj_eq_true]
    simp [conj_eq_true]

/-- **One `OR`.** What comes before it and what it begins are alternatives, unless nothing comes
before it: then the `OR` is not written, and the first part is no alternative that is always
true. -/
theorem holds_split {front back : List (Cond C V)} {c : Option (Cond C V)} {r : Row C V} :
    holds (ands front ++ orClause c ++ ands back) r = some true ↔
      match c with
      | none => All (front ++ back) r
      | some c => (front ≠ [] ∧ All front r) ∨ All (c :: back) r := by
  cases c with
  | none =>
    have hands : ands front ++ orClause none ++ ands back = ands (front ++ back) := by
      simp [ands, orClause]
    rw [hands, holds_ands]
  | some c =>
    cases front with
    | nil =>
      have hands : ands [] ++ orClause (some c) ++ ands back = (.or, c) :: ands back := rfl
      rw [hands, holds, alternatives_ands_nil, List.map_singleton, disj_eq_true]
      simp [conj_eq_true]
    | cons c' front =>
      have hands : ands (c' :: front) ++ orClause (some c) ++ ands back =
          (.and, c') :: (ands front ++ (.or, c) :: ands back) := by
        simp [ands, orClause]
      rw [hands, holds, alternatives_ands, alternatives, alternatives_ands_nil, disj_eq_true]
      simp [conj_eq_true]

theorem alternatives_ors (current cs : List (Cond C V)) :
    alternatives current (cs.map fun c => (.or, c)) = current :: cs.map fun c => [c] := by
  induction cs generalizing current with
  | nil => rfl
  | cons c cs ih => rw [List.map_cons, alternatives, ih, List.map_cons]

/-- **Only `OR`s** after the first part: each condition is an alternative of its own. -/
theorem holds_ors {front cs : List (Cond C V)} {r : Row C V} :
    holds (ands front ++ cs.map fun c => (.or, c)) r = some true ↔
      (front = [] ∧ cs = []) ∨ (front ≠ [] ∧ All front r) ∨ ∃ c ∈ cs, c r = some true := by
  cases front with
  | nil =>
    cases cs with
    | nil => simp [ands, holds]
    | cons c cs =>
      have hors : holds (ands [] ++ (c :: cs).map fun c => (.or, c)) =
          disj ((alternatives [c] (cs.map fun c => (.or, c))).map conj) := rfl
      rw [hors, alternatives_ors, disj_eq_true]
      simp [conj_eq_true, All]
  | cons c' front =>
    have hands : holds (ands (c' :: front) ++ cs.map fun c => (.or, c)) =
        disj ((alternatives [c'] (ands front ++ cs.map fun c => (.or, c))).map conj) := rfl
    rw [hands, alternatives_ands, alternatives_ors, disj_eq_true]
    simp [conj_eq_true, All]

/-! ### `SELECT` and `COUNT` -/

/-- `ASC` or `DESC`. -/
inductive Direction
  | asc
  | desc

/-- `NULL` comes before all values. -/
def lessThan (lt : V → V → Bool) : Option V → Option V → Bool
  | none, some _ => true
  | some x, some y => lt x y
  | _, none => false

/-- A row may stand before another one. -/
def before (lt : V → V → Bool) : List (C × Direction) → Row C V → Row C V → Prop
  | [], _, _ => True
  | (c, .asc) :: rest, r, r' =>
    lessThan lt (r c) (r' c) ∨ (¬ lessThan lt (r' c) (r c) ∧ before lt rest r r')
  | (c, .desc) :: rest, r, r' =>
    lessThan lt (r' c) (r c) ∨ (¬ lessThan lt (r c) (r' c) ∧ before lt rest r r')

instance decidableBefore (lt : V → V → Bool) : (orderBy : List (C × Direction)) →
    DecidableRel (before lt orderBy)
  | [] => fun _ _ => isTrue trivial
  | (_, .asc) :: rest => fun r r' =>
    have := decidableBefore lt rest r r'
    inferInstanceAs (Decidable (_ ∨ (_ ∧ _)))
  | (_, .desc) :: rest => fun r r' =>
    have := decidableBefore lt rest r r'
    inferInstanceAs (Decidable (_ ∨ (_ ∧ _)))

/-- A `SELECT` over one table. -/
structure Select (C V : Type) where
  columns : List C
  distinct : Bool
  clauses : Clauses C V
  orderBy : List (C × Direction)
  limit : Option ℕ
  offset : ℕ

/-- The rows that satisfy the `WHERE`. -/
def matching (clauses : Clauses C V) (rows : List (Row C V)) : List (Row C V) :=
  rows.filter fun r => holds clauses r = some true

/-- The answer to a `SELECT`. -/
def Select.run [DecidableEq V] (lt : V → V → Bool) (s : Select C V) (rows : List (Row C V)) :
    List (List (Option V)) :=
  let sorted := (matching s.clauses rows).insertionSort (before lt s.orderBy)
  let selected := sorted.map fun r => s.columns.map r
  let unique := if s.distinct then selected.dedup else selected
  let rest := unique.drop s.offset
  match s.limit with
  | none => rest
  | some n => rest.take n

/-- The values of a column that are not `NULL`. -/
def cells (c : C) (rows : List (Row C V)) : List V := rows.filterMap fun r => r c

/-- `COUNT(column)`. -/
def countColumn (c : C) (rows : List (Row C V)) : ℕ := (cells c rows).length

/-- One value of each kind, where `eq` says which values are equal. -/
def distinctValues (eq : V → V → Bool) (l : List V) : List V := l.pwFilter fun v w => ¬ eq v w

/-- `COUNT(DISTINCT column)`. -/
def countDistinct (eq : V → V → Bool) (c : C) (rows : List (Row C V)) : ℕ :=
  (distinctValues eq (cells c rows)).length

/-- The rows that `COUNT(DISTINCT column)` does not count: `NULL`, or a value that occurs again. -/
def uncounted (eq : V → V → Bool) (c : C) : List (Row C V) → ℕ
  | [] => 0
  | r :: rows =>
    (if (r c).all fun v => (distinctValues eq (cells c rows)).any (eq v) then 1 else 0) +
      uncounted eq c rows

section Cells

variable {c : C} {r : Row C V} {rows : List (Row C V)} {v : V}

theorem cells_cons_none (h : r c = none) : cells c (r :: rows) = cells c rows := by
  simp [cells, h]

theorem cells_cons_some (h : r c = some v) : cells c (r :: rows) = v :: cells c rows := by
  simp [cells, h]

theorem countDistinct_add_uncounted (eq : V → V → Bool) (c : C) (rows : List (Row C V)) :
    countDistinct eq c rows + uncounted eq c rows = rows.length := by
  induction rows with
  | nil => rfl
  | cons r rows ih =>
    rw [countDistinct] at ih ⊢
    rw [uncounted, List.length_cons]
    cases hr : r c with
    | none =>
      rw [cells_cons_none hr, if_pos (by rfl)]
      omega
    | some v =>
      rw [cells_cons_some hr, Option.all_some]
      by_cases hagain : (distinctValues eq (cells c rows)).any (eq v) = true
      · have hskip : ¬ ∀ w ∈ distinctValues eq (cells c rows), ¬ eq v w = true := by
          simpa using hagain
        rw [if_pos hagain, distinctValues, List.pwFilter_cons_of_neg hskip, ← distinctValues]
        omega
      · have hkeep : ∀ w ∈ distinctValues eq (cells c rows), ¬ eq v w = true := by
          simpa using hagain
        rw [if_neg hagain, distinctValues, List.pwFilter_cons_of_pos hkeep, ← distinctValues,
          List.length_cons]
        omega

/-- Without `NULL` every row is counted. -/
theorem countColumn_of_ne_none (h : ∀ r ∈ rows, r c ≠ none) :
    countColumn c rows = rows.length := by
  induction rows with
  | nil => rfl
  | cons r rows ih =>
    obtain ⟨v, hv⟩ := Option.ne_none_iff_exists'.mp (h r List.mem_cons_self)
    rw [countColumn] at ih ⊢
    rw [cells_cons_some hv, List.length_cons, List.length_cons,
      ih fun r' hr' => h r' (List.mem_cons_of_mem _ hr')]

end Cells

/-- **`DISTINCT` over a key changes nothing**: a query without limit that selects columns in which
no two rows agree answers one row for each row that satisfies its `WHERE`. -/
theorem Select.length_run [DecidableEq V] {lt : V → V → Bool} {s : Select C V}
    {rows : List (Row C V)} (hkey : (rows.map fun r => s.columns.map r).Nodup)
    (hlimit : s.limit = none) (hoffset : s.offset = 0) :
    (s.run lt rows).length = (matching s.clauses rows).length := by
  have hperm : ((matching s.clauses rows).insertionSort (before lt s.orderBy)).Perm
      (matching s.clauses rows) := List.perm_insertionSort _ _
  have hnodup : (((matching s.clauses rows).insertionSort (before lt s.orderBy)).map
      fun r => s.columns.map r).Nodup := by
    rw [(hperm.map _).nodup_iff]
    exact hkey.sublist (List.filter_sublist.map _)
  simp only [Select.run, hlimit, hoffset, List.drop_zero, hnodup.dedup, ite_self, List.length_map]
  exact hperm.length_eq

/-! ### Rows of records -/

section Records

variable {α : Type}

/-- `LIMIT` and `OFFSET`. -/
def page (limit : Option ℕ) (offset : ℕ) (l : List α) : List α :=
  match limit with
  | none => l.drop offset
  | some n => (l.drop offset).take n

theorem page_map {β : Type} (f : α → β) (limit : Option ℕ) (offset : ℕ) (l : List α) :
    page limit offset (l.map f) = (page limit offset l).map f := by
  cases limit with
  | none => exact List.map_drop.symm
  | some n => rw [page, page, ← List.map_drop, List.map_take]

theorem page_sublist (limit : Option ℕ) (offset : ℕ) (l : List α) :
    (page limit offset l).Sublist l := by
  cases limit with
  | none => exact List.drop_sublist offset l
  | some n => exact (List.take_sublist n _).trans (List.drop_sublist offset l)

variable (s : Select C V) (lt : V → V → Bool) (row : α → Row C V) (l : List α)

/-- The records whose rows satisfy the `WHERE`, in the order of the rows. -/
def Select.records : List α :=
  (l.filter fun a => holds s.clauses (row a) = some true).insertionSort fun a b =>
    before lt s.orderBy (row a) (row b)

theorem Select.records_perm : (s.records lt row l).Perm
    (l.filter fun a => holds s.clauses (row a) = some true) :=
  List.perm_insertionSort _ _

theorem Select.map_records : (s.records lt row l).map row =
    (matching s.clauses (l.map row)).insertionSort (before lt s.orderBy) := by
  have hfilter : matching s.clauses (l.map row) =
      (l.filter fun a => holds s.clauses (row a) = some true).map row := by
    rw [matching, List.filter_map]
    rfl
  rw [hfilter]
  exact List.map_insertionSort _ _ row _ fun a _ b _ => Iff.rfl

/-- **A query without `DISTINCT`** answers the rows of a page of the records. -/
theorem Select.run_map [DecidableEq V] (h : s.distinct = false) : s.run lt (l.map row) =
    (page s.limit s.offset (s.records lt row l)).map fun a => s.columns.map (row a) := by
  have hmap : (s.records lt row l).map (fun a => s.columns.map (row a)) =
      ((matching s.clauses (l.map row)).insertionSort (before lt s.orderBy)).map
        fun r => s.columns.map r := by
    rw [← s.map_records lt row l, List.map_map]
    rfl
  rw [← page_map, hmap, Select.run, h]
  cases hlimit : s.limit <;> simp only [page, Bool.false_eq_true, if_false]

end Records

end Sql

end SwaptoshiService
