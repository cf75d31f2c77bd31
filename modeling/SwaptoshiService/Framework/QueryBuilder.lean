import SwaptoshiService.Lib.Sql

/-!
# The query builder

`queryBuilder` (`framework/src/database/util.js`) turns a `params` object into a query; `find` and
`count` run it on a table. The two queries have the same conditions but for one point: for a key by
which the rows are to be sorted (`sort`, `order`), `find` asks that the column is not `NULL`, and
`count` does not. `find` asks it **first**, so with `orWhereIn` the question reaches only the
conditions before the `OR`, and becomes an alternative of its own when there are none.

With `distinct`, `count` counts the values of the column, and `find` selects the column together
with the primary key, which makes every row distinct; a list of columns, which `find` splits at the
commas, is one unknown column to `count`.

`count_eq_find_iff` says when the two agree all the same. Joins, groups, aggregates and raw texts,
which `params` may also hold, are left out.
-/

namespace SwaptoshiService

namespace QueryBuilder

open Sql

variable {C V : Type}

/-- How the database compares two values; `like` takes the pattern as a text. -/
structure Ops (V : Type) where
  eq : V → V → Bool
  lt : V → V → Bool
  le : V → V → Bool
  like : V → String → Bool

/-! ### Parameters -/

/-- An entry of `propBetweens`. -/
structure PropBetween (C V : Type) where
  property : C
  fromValue : Option (Option V) := none
  toValue : Option (Option V) := none
  greaterThanEqualTo : Option (Option V) := none
  lowerThanEqualTo : Option (Option V) := none
  greaterThan : Option (Option V) := none
  lowerThan : Option (Option V) := none

/-- An entry of `search` or `orSearch`; an empty text is not searched for. -/
structure Search (C : Type) where
  property : C
  pattern : String := ""
  startsWith : String := ""
  endsWith : String := ""
  allowWildCards : Bool := false

/-- The `params` object. `queryParams` are the keys that are names of columns; `distinct` is split
at its commas, `sort` and `order` at the colon. -/
structure Params (C V : Type) where
  queryParams : List (C × Option V) := []
  propBetweens : List (PropBetween C V) := []
  whereIn : List (C × List (Option V)) := []
  whereNotIn : Option (C × List (Option V)) := none
  whereNot : Option (C × Option V) := none
  whereBetween : Option (C × Option V × Option V) := none
  andWhere : List (C × Option V) := []
  /-- `orWhere` and `orWhereWith`. -/
  orWhere : Option (List (C × Option V) × List (C × Option V)) := none
  orWhereIn : Option (C × List (Option V)) := none
  search : List (Search C) := []
  orSearch : List (Search C) := []
  whereNull : List C := []
  whereNotNull : List C := []
  distinct : List C := []
  sort : Option (C × Direction) := none
  order : Option (C × Direction) := none
  limit : Option ℕ := none
  offset : ℕ := 0

/-- The same parameters without `limit` and `offset`. -/
def Params.unlimited (p : Params C V) : Params C V := { p with limit := none, offset := 0 }

/-! ### Conditions -/

section Conditions

variable (ops : Ops V)

/-- `query.where(column, value)`. -/
def whereEq (c : C) : Option V → Cond C V
  | none => isNull c
  | some v => compare ops.eq c (some v)

/-- `query.where(object)`. -/
def whereObject (object : List (C × Option V)) : List (Cond C V) :=
  object.map fun entry => whereEq ops entry.1 entry.2

/-- `query.whereNot(column, value)`. -/
def whereNot (c : C) : Option V → Cond C V
  | none => isNotNull c
  | some v => fun r => (compare ops.eq c (some v) r).not

/-- `query.whereIn(column, values)`; no value at all is false. -/
def whereIn (c : C) (values : List (Option V)) : Cond C V :=
  if values.isEmpty then fun _ => some false else isIn ops.eq c values

/-- `query.whereNotIn(column, values)`; no value at all is true. -/
def whereNotIn (c : C) (values : List (Option V)) : Cond C V :=
  if values.isEmpty then fun _ => some true else fun r => (isIn ops.eq c values r).not

/-- `query.whereBetween(column, [low, high])`. -/
def whereBetween (c : C) (low high : Option V) : Cond C V := fun r =>
  (compare (fun x y => ops.le y x) c low r).and (compare ops.le c high r)

/-- `query.where(column, 'like', pattern)`. -/
def whereLike (c : C) (pattern : String) : Cond C V := fun r =>
  (r c).map fun v => ops.like v pattern

/-- The conditions of an entry of `propBetweens`. -/
def propBetween (b : PropBetween C V) : List (Cond C V) :=
  (b.fromValue.map (compare (fun x y => ops.le y x) b.property)).toList ++
    (b.toValue.map (compare ops.le b.property)).toList ++
    (b.greaterThanEqualTo.map (compare (fun x y => ops.le y x) b.property)).toList ++
    (b.lowerThanEqualTo.map (compare ops.le b.property)).toList ++
    (b.greaterThan.map (compare (fun x y => ops.lt y x) b.property)).toList ++
    (b.lowerThan.map (compare ops.lt b.property)).toList

/-- `escapeUserInput(input)`. -/
def escapeUserInput (input : String) : String :=
  String.ofList (input.toList.flatMap fun c =>
    if c = '%' ∨ c = '_' then ['\\', c] else [c])

/-- The conditions of an entry of `search` or `orSearch`. -/
def searchConds (s : Search C) : List (Cond C V) :=
  let text := fun input => if s.allowWildCards then input else escapeUserInput input
  (if s.pattern = "" then [] else [whereLike ops s.property ("%" ++ text s.pattern ++ "%")]) ++
    (if s.startsWith = "" then [] else [whereLike ops s.property (text s.startsWith ++ "%")]) ++
    if s.endsWith = "" then [] else [whereLike ops s.property ("%" ++ text s.endsWith)]

/-- `query.where(function)`: conditions in brackets, which are left out when there are none. -/
def group (clauses : Clauses C V) : List (Cond C V) :=
  if clauses.isEmpty then [] else [holds clauses]

/-- The conditions of `orWhere` and `orWhereWith`. -/
def orWhereClauses (orWhere orWhereWith : List (C × Option V)) : Clauses C V :=
  ands (whereObject ops orWhere) ++
    (group (ands (whereObject ops orWhereWith))).map fun c => (.or, c)

/-- The conditions of `orSearch`: those of the first entry are joined by `AND`. -/
def orSearchClauses : List (Search C) → Clauses C V
  | [] => []
  | s :: rest => ands (searchConds ops s) ++
      (rest.flatMap (searchConds ops)).map fun c => (.or, c)

end Conditions

/-! ### The builder -/

section Builder

variable (ops : Ops V) (p : Params C V)

/-- The conditions that come before `orWhereIn`. -/
def Params.front : List (Cond C V) :=
  whereObject ops p.queryParams ++
    p.propBetweens.flatMap (propBetween ops) ++
    p.whereIn.map (fun entry => QueryBuilder.whereIn ops entry.1 entry.2) ++
    (p.whereNotIn.map fun entry => QueryBuilder.whereNotIn ops entry.1 entry.2).toList ++
    (p.whereNot.map fun entry => QueryBuilder.whereNot ops entry.1 entry.2).toList ++
    (p.whereBetween.map fun entry =>
      QueryBuilder.whereBetween ops entry.1 entry.2.1 entry.2.2).toList ++
    group (ands (whereObject ops p.andWhere)) ++
    (p.orWhere.map fun entry => group (orWhereClauses ops entry.1 entry.2)).getD []

/-- The condition of `orWhereIn`. -/
def Params.orIn : Option (Cond C V) :=
  p.orWhereIn.map fun entry => QueryBuilder.whereIn ops entry.1 entry.2

/-- The conditions that come after `orWhereIn`. -/
def Params.back : List (Cond C V) :=
  p.search.flatMap (searchConds ops) ++
    group (orSearchClauses ops p.orSearch) ++
    p.whereNull.map isNull ++
    p.whereNotNull.map isNotNull

/-- The keys by which the rows are sorted. -/
def Params.orderKeys : List (C × Direction) := p.sort.toList ++ p.order.toList

/-- The conditions on these keys. -/
def Params.sortNotNull : List (Cond C V) := p.orderKeys.map fun key => isNotNull key.1

/-- `queryBuilder(params, columns, false)`. -/
def queryBuilder (columns : List C) : Select C V where
  columns := columns ++ p.distinct ++ p.orderKeys.map Prod.fst
  distinct := !p.distinct.isEmpty
  clauses := ands (p.sortNotNull ++ p.front ops) ++ orClause (p.orIn ops) ++ ands (p.back ops)
  orderBy := p.orderKeys
  limit := p.limit
  offset := p.offset

/-- The conditions of `queryBuilder(params, columns, true)`. -/
def countClauses : Clauses C V :=
  ands (p.front ops) ++ orClause (p.orIn ops) ++ ands (p.back ops)

end Builder

/-- A table with its rows. -/
structure Table (C V : Type) where
  primaryKey : C
  /-- The other columns of a composite primary key. -/
  primaryKeys : List C
  rows : List (Row C V)
  primaryKey_ne_null : ∀ r ∈ rows, r primaryKey ≠ none
  nodup : (rows.map fun r => (primaryKey :: primaryKeys).map r).Nodup

/-- `find(params, columns)`. -/
def find [DecidableEq V] (ops : Ops V) (t : Table C V) (p : Params C V)
    (columns : Option (List C)) : List (List (Option V)) :=
  (queryBuilder ops p (columns.getD (t.primaryKey :: t.primaryKeys))).run ops.lt t.rows

/-- `count(params, column)`. -/
def count (ops : Ops V) (t : Table C V) (p : Params C V) (column : Option C) :
    Except String ℕ :=
  let rows := matching (countClauses ops p) t.rows
  match p.distinct with
  | [] => .ok (countColumn (column.getD t.primaryKey) rows)
  | [c] => .ok (countDistinct ops.eq c rows)
  | _ => .error "Unknown column"

/-! ### Agreement -/

section Agreement

variable {ops : Ops V} {t : Table C V} {p : Params C V} {r : Row C V}

/-- A key to sort by is `NULL` in the row. -/
def Params.sortNull (p : Params C V) (r : Row C V) : Bool :=
  p.orderKeys.any fun key => (r key.1).isNone

/-- A row that `count` counts and `find` does not find: a key to sort by is `NULL`, and the row is
not selected by what begins with `orWhereIn`. -/
def Params.lost (ops : Ops V) (p : Params C V) (r : Row C V) : Bool :=
  p.sortNull r && match p.orIn ops with
    | none => All (p.front ops ++ p.back ops) r
    | some c => !(p.front ops).isEmpty && All (p.front ops) r && !All (c :: p.back ops) r

/-- A row that `find` finds and `count` does not count: `orWhereIn` is the first condition of
`count` and does not select the row, and the question for `NULL`s before it does. -/
def Params.gained (ops : Ops V) (p : Params C V) (r : Row C V) : Bool :=
  !p.orderKeys.isEmpty && !p.sortNull r && match p.orIn ops with
    | none => false
    | some c => (p.front ops).isEmpty && !All (c :: p.back ops) r

/-- The rows that `count` selects and does not count, for a `NULL` or a repeated value in the column
that is to be distinct. -/
def skipped (ops : Ops V) (t : Table C V) (p : Params C V) : ℕ :=
  match p.distinct with
  | [] => 0
  | c :: _ => uncounted ops.eq c (matching (countClauses ops p) t.rows)

theorem all_sortNotNull : All p.sortNotNull r ↔ p.sortNull r = false := by
  simp only [All, Params.sortNotNull, List.forall_mem_map, isNotNull, Option.some.injEq,
    Params.sortNull, List.any_eq_false, Option.isNone_iff_eq_none, Option.isSome_iff_ne_none]

theorem sortNotNull_eq_nil : p.sortNotNull = [] ↔ p.orderKeys = [] := List.map_eq_nil_iff

/-- `count` selects the row. -/
theorem holds_countClauses : holds (countClauses ops p) r = some true ↔
    match p.orIn ops with
    | none => All (p.front ops) r ∧ All (p.back ops) r
    | some c => (p.front ops ≠ [] ∧ All (p.front ops) r) ∨ All (c :: p.back ops) r := by
  rw [countClauses, holds_split]
  cases p.orIn ops with
  | none => exact all_append
  | some c => rfl

/-- `find` selects the row. -/
theorem holds_queryBuilder {columns : List C} :
    holds (queryBuilder ops p columns).clauses r = some true ↔
      match p.orIn ops with
      | none => p.sortNull r = false ∧ All (p.front ops) r ∧ All (p.back ops) r
      | some c => ((p.orderKeys ≠ [] ∨ p.front ops ≠ []) ∧ p.sortNull r = false ∧
          All (p.front ops) r) ∨ All (c :: p.back ops) r := by
  rw [queryBuilder, holds_split]
  cases p.orIn ops with
  | none =>
    simp only
    rw [all_append, all_append, all_sortNotNull, and_assoc]
  | some c =>
    simp only
    rw [all_append, all_sortNotNull, Ne, List.append_eq_nil_iff, sortNotNull_eq_nil,
      Classical.not_and_iff_not_or_not]

theorem lost_iff {columns : List C} : p.lost ops r = true ↔
    holds (countClauses ops p) r = some true ∧
      ¬ holds (queryBuilder ops p columns).clauses r = some true := by
  rw [holds_countClauses, holds_queryBuilder, Params.lost]
  cases p.orIn ops with
  | none =>
    simp only [Bool.and_eq_true, decide_eq_true_eq, all_append]
    grind
  | some c =>
    simp only [Bool.and_eq_true, Bool.not_eq_true', List.isEmpty_eq_false_iff, decide_eq_true_eq,
      decide_eq_false_iff_not]
    grind

theorem gained_iff {columns : List C} : p.gained ops r = true ↔
    holds (queryBuilder ops p columns).clauses r = some true ∧
      ¬ holds (countClauses ops p) r = some true := by
  have hnil : p.front ops = [] → All (p.front ops) r := by
    intro h
    rw [h]
    exact fun c hc => absurd hc List.not_mem_nil
  rw [holds_countClauses, holds_queryBuilder, Params.gained]
  cases p.orIn ops with
  | none =>
    simp only [Bool.and_false, Bool.false_eq_true, false_iff]
    grind
  | some c =>
    simp only [Bool.and_eq_true, Bool.not_eq_true', List.isEmpty_eq_false_iff,
      decide_eq_false_iff_not, List.isEmpty_iff]
    grind

/-- Two selections of the same rows differ by what is lost and what is gained. -/
theorem countP_add_countP {α : Type} {f g lost gained : α → Bool}
    (hlost : ∀ a, lost a = true ↔ g a = true ∧ ¬ f a = true)
    (hgained : ∀ a, gained a = true ↔ f a = true ∧ ¬ g a = true) (l : List α) :
    l.countP f + l.countP lost = l.countP g + l.countP gained := by
  induction l with
  | nil => rfl
  | cons a l ih =>
    simp only [List.countP_cons, hlost, hgained]
    by_cases hf : f a = true <;> by_cases hg : g a = true <;> simp only [hf, hg] <;> grind

theorem length_matching_balance (ops : Ops V) (t : Table C V) (p : Params C V)
    (columns : List C) :
    (matching (queryBuilder ops p columns).clauses t.rows).length + t.rows.countP (p.lost ops) =
      (matching (countClauses ops p) t.rows).length + t.rows.countP (p.gained ops) := by
  rw [matching, matching, ← List.countP_eq_length_filter, ← List.countP_eq_length_filter]
  refine countP_add_countP (fun r => ?_) (fun r => ?_) t.rows
  · rw [lost_iff, decide_eq_true_eq, decide_eq_true_eq]
  · rw [gained_iff, decide_eq_true_eq, decide_eq_true_eq]

theorem count_add_skipped (ops : Ops V) (t : Table C V) {p : Params C V}
    (h : p.distinct.length ≤ 1) : ∃ n, count ops t p none = .ok n ∧
      n + skipped ops t p = (matching (countClauses ops p) t.rows).length := by
  rw [count, skipped]
  match hdistinct : p.distinct with
  | [] =>
    refine ⟨_, rfl, countColumn_of_ne_none fun r hr => ?_⟩
    exact t.primaryKey_ne_null r (List.mem_of_mem_filter hr)
  | [c] => exact ⟨_, rfl, countDistinct_add_uncounted ops.eq c _⟩
  | _ :: _ :: _ =>
    rw [hdistinct] at h
    simp at h

variable [DecidableEq V]

/-- Without limit `find` answers one row for each row that its conditions select. -/
theorem length_find (ops : Ops V) (t : Table C V) (p : Params C V) :
    (find ops t p.unlimited none).length =
      (matching (queryBuilder ops p (t.primaryKey :: t.primaryKeys)).clauses t.rows).length := by
  refine Select.length_run ?_ rfl rfl
  -- the columns begin with the primary key, in which no two rows agree
  refine List.Nodup.of_map (List.take (t.primaryKeys.length + 1)) ?_
  have hkey : (List.take (t.primaryKeys.length + 1) ∘ fun r : Row C V =>
      (queryBuilder ops p.unlimited (t.primaryKey :: t.primaryKeys)).columns.map r) =
        fun r => (t.primaryKey :: t.primaryKeys).map r := by
    funext r
    simp [queryBuilder]
  rw [List.map_map]
  exact hkey ▸ t.nodup

/-- **`find` and `count` agree** exactly if at most one column is to be distinct, and the rows that
`find` loses to a `NULL` in a key to sort by are as many as those it gains that way and those that
`count` skips. -/
theorem count_eq_find_iff (ops : Ops V) (t : Table C V) (p : Params C V) :
    count ops t p none = .ok (find ops t p.unlimited none).length ↔
      p.distinct.length ≤ 1 ∧
        t.rows.countP (p.lost ops) = t.rows.countP (p.gained ops) + skipped ops t p := by
  have hbalance := length_matching_balance ops t p (t.primaryKey :: t.primaryKeys)
  rw [length_find]
  by_cases hone : p.distinct.length ≤ 1
  · obtain ⟨n, hn, hskipped⟩ := count_add_skipped ops t hone
    rw [hn, Except.ok.injEq, and_iff_right hone]
    omega
  · refine iff_of_false ?_ fun h => hone h.1
    match hdistinct : p.distinct with
    | [] | [_] => simp [hdistinct] at hone
    | _ :: _ :: _ => simp [count, hdistinct]

/-- The columns of a small table. -/
inductive DemoColumn
  | id
  | height

/-- A table with one row, which has no height. -/
def demoTable : Table DemoColumn ℕ where
  primaryKey := .id
  primaryKeys := []
  rows := [fun | .id => some 1 | .height => none]
  primaryKey_ne_null := by simp
  nodup := by simp

/-- Numbers, without texts to search. -/
def demoOps : Ops ℕ := ⟨(· == ·), (· < ·), (· ≤ ·), fun _ _ => false⟩

/-- Sorted by height, the row is counted but not found. -/
theorem sorted_row_counted_not_found :
    count demoOps demoTable { sort := some (.height, .asc) } none = .ok 1 ∧
      find demoOps demoTable (Params.unlimited { sort := some (.height, .asc) }) none = [] ∧
      count demoOps demoTable { sort := some (.height, .asc) } none ≠
        .ok (find demoOps demoTable (Params.unlimited { sort := some (.height, .asc) })
          none).length := by
  decide

end Agreement

end QueryBuilder

end SwaptoshiService
