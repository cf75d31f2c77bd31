import SwaptoshiService.Framework.QueryBuilder

/-!
# What the filters of a query mean

`queryBuilder` appends a condition for each filter that `params` has, all joined by `AND` but for
the one of `orWhereIn`, which is joined by `OR` without brackets. So what comes before it and what
comes from it on are two queries of their own: a row that one of them selects need not meet the
filters of the other. Two more filters mean something else than they say: with `where` the keys that
are names of columns are not asked for, and the patterns of the first entry of `orSearch` are joined
by `AND`, those of the others by `OR`.

`matching_eq_filter_iff` says for which rows this makes no difference. `Params` with the filters
`where` and `whereJsonSupersetOf` are `Filters`.
-/

namespace SwaptoshiService

namespace QueryBuilder

open Sql

variable {C V : Type}

/-- How the database compares two values; `supersetOf` compares JSON values. -/
structure FilterOps (V : Type) extends Ops V where
  supersetOf : V → V → Bool

/-- The `params` object. -/
structure Filters (C V : Type) extends Params C V where
  /-- `where`, which is used instead of the keys that are names of columns. -/
  paramsWhere : Option (List (C × Option V)) := none
  /-- The column, `val0` and `remValues`. -/
  whereJsonSupersetOf : Option (C × V × List V) := none

section Builder

variable (ops : FilterOps V) (p : Filters C V)

/-- `query.whereJsonSupersetOf(column, [value])`. -/
def whereJsonSupersetOf (c : C) (value : V) : Cond C V := fun r =>
  (r c).map fun v => ops.supersetOf v value

/-- The conditions of `whereJsonSupersetOf`. -/
def jsonClauses (c : C) (val0 : V) (remValues : List V) : Clauses C V :=
  ands [whereJsonSupersetOf ops c val0] ++
    (remValues.map (whereJsonSupersetOf ops c)).map fun cond => (.or, cond)

/-- `query.where(params.where)` or `query.where(queryParams)`. -/
def Filters.equalities : List (Cond C V) :=
  whereObject ops.toOps (p.paramsWhere.getD p.queryParams)

/-- The conditions of `whereIn`. -/
def Filters.whereIns : List (Cond C V) :=
  p.whereIn.map fun entry => QueryBuilder.whereIn ops.toOps entry.1 entry.2

/-- The condition of `whereJsonSupersetOf` in brackets. -/
def Filters.json : List (Cond C V) :=
  (p.whereJsonSupersetOf.map fun entry =>
    group (jsonClauses ops entry.1 entry.2.1 entry.2.2)).getD []

/-- The conditions of the filters from `whereNotIn` to `andWhere`. -/
def Filters.others : List (Cond C V) :=
  (p.whereNotIn.map fun entry => QueryBuilder.whereNotIn ops.toOps entry.1 entry.2).toList ++
    (p.whereNot.map fun entry => QueryBuilder.whereNot ops.toOps entry.1 entry.2).toList ++
    (p.whereBetween.map fun entry =>
      QueryBuilder.whereBetween ops.toOps entry.1 entry.2.1 entry.2.2).toList ++
    group (ands (whereObject ops.toOps p.andWhere))

/-- The condition of `orWhere` and `orWhereWith` in brackets. -/
def Filters.orWheres : List (Cond C V) :=
  (p.orWhere.map fun entry => group (orWhereClauses ops.toOps entry.1 entry.2)).getD []

/-- The conditions that come before `orWhereIn`. -/
def Filters.front : List (Cond C V) :=
  p.equalities ops ++ p.propBetweens.flatMap (propBetween ops.toOps) ++ p.whereIns ops ++
    p.json ops ++ p.others ops ++ p.orWheres ops

/-- The `WHERE` of `queryBuilder(params, columns, isCountQuery)`. -/
def Filters.clauses (isCountQuery : Bool) : Clauses C V :=
  ands ((if isCountQuery then [] else p.sortNotNull) ++ p.front ops) ++
    orClause (p.orIn ops.toOps) ++ ands (p.back ops.toOps)

/-- Without the two filters these are the conditions of `find` and `count`. -/
theorem clauses_of_params (p : Params C V) (columns : List C) :
    ({ p with } : Filters C V).clauses ops false = (queryBuilder ops.toOps p columns).clauses ∧
      ({ p with } : Filters C V).clauses ops true = countClauses ops.toOps p := by
  simp [Filters.clauses, queryBuilder, countClauses, Filters.front, Params.front,
    Params.sortNotNull, Params.orderKeys, Params.orIn, Params.back, Filters.equalities,
    Filters.whereIns, Filters.json, Filters.others, Filters.orWheres]

/-! ### The meaning of the filters -/

/-- One of the two objects holds, if there is one that has a key. -/
def EitherObject (object object' : List (C × Option V)) (r : Row C V) : Prop :=
  (object = [] ∧ object' = []) ∨ (object ≠ [] ∧ All (whereObject ops.toOps object) r) ∨
    (object' ≠ [] ∧ All (whereObject ops.toOps object') r)

/-- **The row meets every filter.** The alternatives are `orWhereIn` to `whereIn`, `orWhere` to
`orWhereWith`, the values of `whereJsonSupersetOf`, and the patterns of `orSearch`. -/
structure Filters.Selects (r : Row C V) : Prop where
  columns : All (whereObject ops.toOps p.queryParams) r
  paramsWhere : ∀ object, p.paramsWhere = some object → All (whereObject ops.toOps object) r
  propBetweens : All (p.propBetweens.flatMap (propBetween ops.toOps)) r
  whereIn : match p.orIn ops.toOps with
    | none => All (p.whereIns ops) r
    | some c => (p.whereIns ops ≠ [] ∧ All (p.whereIns ops) r) ∨ c r = some true
  json : ∀ entry, p.whereJsonSupersetOf = some entry → ∃ value ∈ entry.2.1 :: entry.2.2,
    QueryBuilder.whereJsonSupersetOf ops entry.1 value r = some true
  others : All (p.others ops) r
  orWhere : ∀ entry, p.orWhere = some entry → EitherObject ops entry.1 entry.2 r
  search : All (p.search.flatMap (searchConds ops.toOps)) r
  orSearch : p.orSearch.flatMap (searchConds ops.toOps) = [] ∨
    ∃ c ∈ p.orSearch.flatMap (searchConds ops.toOps), c r = some true
  nulls : All (p.whereNull.map isNull ++ p.whereNotNull.map isNotNull) r

/-! ### Rows that are misread -/

/-- The conditions before `orWhereIn` without those of `whereIn`. -/
def Filters.kept : List (Cond C V) :=
  p.equalities ops ++ p.propBetweens.flatMap (propBetween ops.toOps) ++ p.json ops ++
    p.others ops ++ p.orWheres ops

/-- The conditions after `orWhereIn` without those of `orSearch`. -/
def Filters.searches : List (Cond C V) :=
  p.search.flatMap (searchConds ops.toOps) ++ p.whereNull.map isNull ++
    p.whereNotNull.map isNotNull

/-- The condition of `orSearch` in brackets. -/
def Filters.orSearches : List (Cond C V) := group (orSearchClauses ops.toOps p.orSearch)

/-- `where` is given, and a key that is not asked for has another value in the row. -/
def Filters.Ignored (r : Row C V) : Prop :=
  p.paramsWhere.isSome ∧ ¬ All (whereObject ops.toOps p.queryParams) r

/-- Of the patterns of `orSearch` the row matches some of the first entry only, and not all of
them. -/
def Filters.Split (r : Row C V) : Prop :=
  match p.orSearch with
  | [] => False
  | s :: rest => (∃ c ∈ searchConds ops.toOps s, c r = some true) ∧
      ¬ All (searchConds ops.toOps s) r ∧
        ∀ c ∈ rest.flatMap (searchConds ops.toOps), c r ≠ some true

/-- The row meets the conditions before `orWhereIn`, and not all other filters. -/
def Filters.LiftedBefore (c : Cond C V) (r : Row C V) : Prop :=
  (p.kept ops ≠ [] ∨ p.whereIns ops ≠ []) ∧ All (p.kept ops) r ∧ All (p.whereIns ops) r ∧
    (p.Ignored ops r ∨ (p.whereIns ops = [] ∧ c r ≠ some true) ∨ ¬ All (p.searches ops) r ∨
      (¬ All (p.orSearches ops) r ∧ ¬ p.Split ops r))

/-- The row meets `orWhereIn` and what comes after it, and not all filters before it. -/
def Filters.LiftedAfter (c : Cond C V) (r : Row C V) : Prop :=
  c r = some true ∧ All (p.searches ops) r ∧ All (p.orSearches ops) r ∧
    (p.Ignored ops r ∨ ¬ All (p.kept ops) r)

/-- The row is among the values of `orWhereIn`, and is missed for the first entry of `orSearch`. -/
def Filters.MissedAfter (c : Cond C V) (r : Row C V) : Prop :=
  c r = some true ∧ All (p.kept ops) r ∧ All (p.searches ops) r ∧ p.Split ops r ∧
    ¬ p.Ignored ops r ∧ ((p.kept ops = [] ∧ p.whereIns ops = []) ∨ ¬ All (p.whereIns ops) r)

/-- The query is wrong about the row. -/
def Filters.Misread (r : Row C V) : Prop :=
  match p.orIn ops.toOps with
  | none => All (p.kept ops) r ∧ All (p.whereIns ops) r ∧ All (p.searches ops) r ∧
      ((p.Ignored ops r ∧ All (p.orSearches ops) r) ∨ (¬ p.Ignored ops r ∧ p.Split ops r))
  | some c => p.LiftedBefore ops c r ∨ p.LiftedAfter ops c r ∨ p.MissedAfter ops c r

end Builder

/-! ### The conditions of a row -/

section Rows

variable {ops : FilterOps V} {p : Filters C V} {r : Row C V}

theorem all_group {clauses : Clauses C V} :
    All (group clauses) r ↔ clauses = [] ∨ holds clauses r = some true := by
  rw [group]
  cases clauses with
  | nil => simp [All]
  | cons clause clauses => simp [All]

theorem whereObject_eq_nil {object : List (C × Option V)} :
    whereObject ops.toOps object = [] ↔ object = [] := List.map_eq_nil_iff

/-- Without a condition there is nothing in brackets. -/
theorem group_ands (cs : List (Cond C V)) :
    (group (ands cs) = [] ∧ cs = []) ∨
      ∃ c, group (ands cs) = [c] ∧ cs ≠ [] ∧ ∀ r, c r = some true ↔ All cs r := by
  cases cs with
  | nil => exact .inl ⟨rfl, rfl⟩
  | cons c cs => exact .inr ⟨holds (ands (c :: cs)), rfl, by simp, fun r => holds_ands⟩

theorem all_orWhereClauses {object object' : List (C × Option V)} :
    All (group (orWhereClauses ops.toOps object object')) r ↔
      EitherObject ops object object' r := by
  rw [all_group, orWhereClauses, holds_ors, EitherObject]
  rcases group_ands (whereObject ops.toOps object') with ⟨hgroup, hnil⟩ | ⟨c, hgroup, hne, hc⟩
  · rw [hgroup, whereObject_eq_nil.mp hnil]
    simp [ands, whereObject_eq_nil]
  · rw [hgroup]
    simp [ands, whereObject_eq_nil, hc, whereObject_eq_nil.not.mp hne]

theorem all_json : All (p.json ops) r ↔ ∀ entry, p.whereJsonSupersetOf = some entry →
    ∃ value ∈ entry.2.1 :: entry.2.2,
      QueryBuilder.whereJsonSupersetOf ops entry.1 value r = some true := by
  rw [Filters.json]
  cases p.whereJsonSupersetOf with
  | none => simp [All]
  | some entry =>
    simp only [Option.map_some, Option.getD_some, Option.some.injEq, forall_eq']
    rw [all_group, jsonClauses, holds_ors]
    simp [ands, All]

theorem all_orWheres : All (p.orWheres ops) r ↔
    ∀ entry, p.orWhere = some entry → EitherObject ops entry.1 entry.2 r := by
  rw [Filters.orWheres]
  cases p.orWhere with
  | none => simp [All]
  | some entry => simp [all_orWhereClauses]

/-- The brackets of `orSearch`, which is not empty. -/
theorem all_orSearches_cons {s : Search C} {rest : List (Search C)} (h : p.orSearch = s :: rest) :
    All (p.orSearches ops) r ↔
      (searchConds ops.toOps s = [] ∧ rest.flatMap (searchConds ops.toOps) = []) ∨
        (searchConds ops.toOps s ≠ [] ∧ All (searchConds ops.toOps s) r) ∨
          ∃ c ∈ rest.flatMap (searchConds ops.toOps), c r = some true := by
  rw [Filters.orSearches, h, orSearchClauses, all_group, holds_ors, ands, List.append_eq_nil_iff,
    List.map_eq_nil_iff, List.map_eq_nil_iff]
  grind

/-- The brackets of `orSearch` are narrower than its patterns by what is split. -/
theorem all_orSearches :
    (p.orSearch.flatMap (searchConds ops.toOps) = [] ∨
      ∃ c ∈ p.orSearch.flatMap (searchConds ops.toOps), c r = some true) ↔
        All (p.orSearches ops) r ∨ p.Split ops r := by
  match h : p.orSearch with
  | [] => simp [Filters.orSearches, h, orSearchClauses, all_group]
  | s :: rest =>
    have hsome : searchConds ops.toOps s ≠ [] → All (searchConds ops.toOps s) r →
        ∃ c ∈ searchConds ops.toOps s, c r = some true := by
      intro hne hall
      obtain ⟨c, hc⟩ := List.exists_mem_of_ne_nil _ hne
      exact ⟨c, hc, hall c hc⟩
    have hne : (∃ c ∈ searchConds ops.toOps s, c r = some true) → searchConds ops.toOps s ≠ [] := by
      rintro ⟨c, hc, -⟩
      exact List.ne_nil_of_mem hc
    rw [all_orSearches_cons h, Filters.Split, h]
    have hrest : (∀ c ∈ rest.flatMap (searchConds ops.toOps), c r ≠ some true) ↔
        ¬ ∃ c ∈ rest.flatMap (searchConds ops.toOps), c r = some true := by
      simp only [not_exists, not_and, ne_eq]
    simp only [List.flatMap_cons, List.append_eq_nil_iff, List.mem_append, or_and_right, exists_or,
      hrest]
    constructor
    · rintro (hnil | hfirst | hlater)
      · exact .inl (.inl hnil)
      · -- One pattern of the first entry holds, but perhaps not all of them.
        by_cases hall : All (searchConds ops.toOps s) r
        · exact .inl (.inr (.inl ⟨hne hfirst, hall⟩))
        · by_cases hlater : ∃ c ∈ rest.flatMap (searchConds ops.toOps), c r = some true
          · exact .inl (.inr (.inr hlater))
          · exact .inr ⟨hfirst, hall, hlater⟩
      · exact .inl (.inr (.inr hlater))
    · rintro ((hnil | ⟨hne, hall⟩ | hlater) | ⟨hfirst, -⟩)
      · exact .inl hnil
      · exact .inr (.inl (hsome hne hall))
      · exact .inr (.inr hlater)
      · exact .inr (.inl hfirst)

theorem not_split_of_all (h : All (p.orSearches ops) r) : ¬ p.Split ops r := by
  intro hsplit
  match hs : p.orSearch with
  | [] => simp only [Filters.Split, hs] at hsplit
  | s :: rest =>
    simp only [Filters.Split, hs] at hsplit
    obtain ⟨⟨c, hc, -⟩, hnot, hrest⟩ := hsplit
    rcases (all_orSearches_cons hs).mp h with ⟨hnil, -⟩ | ⟨-, hall⟩ | ⟨c', hc', htrue⟩
    · exact List.ne_nil_of_mem hc hnil
    · exact hnot hall
    · exact hrest c' hc' htrue

theorem all_equalities : (All (whereObject ops.toOps p.queryParams) r ∧
    ∀ object, p.paramsWhere = some object → All (whereObject ops.toOps object) r) ↔
      ¬ p.Ignored ops r ∧ All (p.equalities ops) r := by
  rw [Filters.Ignored, Filters.equalities]
  cases p.paramsWhere with
  | none => simp
  | some object => simp

theorem all_front : All (p.front ops) r ↔ All (p.kept ops) r ∧ All (p.whereIns ops) r := by
  simp only [Filters.front, Filters.kept, all_append]
  grind

theorem front_eq_nil : p.front ops = [] ↔ p.kept ops = [] ∧ p.whereIns ops = [] := by
  simp only [Filters.front, Filters.kept, List.append_eq_nil_iff]
  grind

theorem all_back :
    All (p.back ops.toOps) r ↔ All (p.searches ops) r ∧ All (p.orSearches ops) r := by
  simp only [Params.back, Filters.searches, Filters.orSearches, all_append]
  grind

theorem selects_iff : p.Selects ops r ↔ ¬ p.Ignored ops r ∧ All (p.kept ops) r ∧
    (match p.orIn ops.toOps with
      | none => All (p.whereIns ops) r
      | some c => (p.whereIns ops ≠ [] ∧ All (p.whereIns ops) r) ∨ c r = some true) ∧
    All (p.searches ops) r ∧ (All (p.orSearches ops) r ∨ p.Split ops r) := by
  have heq : (All (whereObject ops.toOps p.queryParams) r ∧
      ∀ object, p.paramsWhere = some object → All (whereObject ops.toOps object) r) ↔
        ¬ p.Ignored ops r ∧ All (p.equalities ops) r := all_equalities
  simp only [Filters.kept, Filters.searches, all_append, all_json, all_orWheres, ← all_orSearches]
  constructor
  · rintro ⟨hcolumns, hwhere, hbetween, hin, hjson, hothers, hor, hsearch, horSearch, hnulls⟩
    rw [all_append] at hnulls
    grind
  · rintro ⟨hnot, ⟨⟨⟨⟨heqs, hbetween⟩, hjson⟩, hothers⟩, hor⟩, hin, ⟨⟨hsearch, hnull⟩, hnotNull⟩,
      horSearch⟩
    obtain ⟨hcolumns, hwhere⟩ := heq.mpr ⟨hnot, heqs⟩
    exact ⟨hcolumns, hwhere, hbetween, hin, hjson, hothers, hor, hsearch, horSearch,
      all_append.mpr ⟨hnull, hnotNull⟩⟩

/-- The query selects the row. -/
theorem holds_clauses {isCountQuery : Bool} (h : p.orderKeys = []) :
    holds (p.clauses ops isCountQuery) r = some true ↔ match p.orIn ops.toOps with
      | none => All (p.kept ops) r ∧ All (p.whereIns ops) r ∧ All (p.searches ops) r ∧
          All (p.orSearches ops) r
      | some c => ((p.kept ops ≠ [] ∨ p.whereIns ops ≠ []) ∧ All (p.kept ops) r ∧
            All (p.whereIns ops) r) ∨
          (c r = some true ∧ All (p.searches ops) r ∧ All (p.orSearches ops) r) := by
  have hnotNull : (if isCountQuery then [] else p.sortNotNull) = ([] : List (Cond C V)) := by
    rw [sortNotNull_eq_nil.mpr h, ite_self]
  -- The condition of `orWhereIn` cuts the list in two.
  rw [Filters.clauses, hnotNull, List.nil_append, holds_split]
  cases p.orIn ops.toOps with
  | none =>
    simp only [all_append, all_front, all_back]
    grind
  | some c =>
    simp only [Ne, front_eq_nil, all_front, all_cons, all_back]
    grind

/-- **One row**: the query is right about it unless it is misread. -/
theorem misread_iff (h : p.orderKeys = []) (isCountQuery : Bool) :
    p.Misread ops r ↔
      ¬ (holds (p.clauses ops isCountQuery) r = some true ↔ p.Selects ops r) := by
  have hsplit : All (p.orSearches ops) r → ¬ p.Split ops r := not_split_of_all
  rw [holds_clauses h, selects_iff, Filters.Misread]
  cases p.orIn ops.toOps with
  | none =>
    simp only
    grind
  | some c =>
    -- No conditions hold, but select nothing by themselves.
    have hkept : p.kept ops = [] → All (p.kept ops) r := fun hnil => by simp [hnil, All]
    have hin : p.whereIns ops = [] → All (p.whereIns ops) r := fun hnil => by simp [hnil, All]
    simp only [Filters.LiftedBefore, Filters.LiftedAfter, Filters.MissedAfter]
    grind

instance (r : Row C V) : Decidable (p.Ignored ops r) := inferInstanceAs (Decidable (_ ∧ ¬ _))

instance (r : Row C V) : Decidable (p.Split ops r) :=
  match h : p.orSearch with
  | [] => isFalse (by simp [Filters.Split, h])
  | s :: rest => decidable_of_iff ((∃ c ∈ searchConds ops.toOps s, c r = some true) ∧
      ¬ All (searchConds ops.toOps s) r ∧
        ∀ c ∈ rest.flatMap (searchConds ops.toOps), c r ≠ some true)
      (by simp only [Filters.Split, h])

instance (r : Row C V) : Decidable (p.Selects ops r) :=
  match h : p.orIn ops.toOps with
  | none => decidable_of_iff (¬ p.Ignored ops r ∧ All (p.kept ops) r ∧ All (p.whereIns ops) r ∧
      All (p.searches ops) r ∧ (All (p.orSearches ops) r ∨ p.Split ops r))
      (by simp only [selects_iff, h])
  | some c => decidable_of_iff (¬ p.Ignored ops r ∧ All (p.kept ops) r ∧
      ((¬ (p.whereIns ops).isEmpty ∧ All (p.whereIns ops) r) ∨ c r = some true) ∧
      All (p.searches ops) r ∧ (All (p.orSearches ops) r ∨ p.Split ops r))
      (by simp only [selects_iff, h, List.isEmpty_iff, Ne])

/-- **When the filters mean what they say**: no row of the table is misread. -/
theorem matching_eq_filter_iff (h : p.orderKeys = []) (isCountQuery : Bool)
    (rows : List (Row C V)) :
    matching (p.clauses ops isCountQuery) rows = rows.filter (fun r => p.Selects ops r) ↔
      ∀ r ∈ rows, ¬ p.Misread ops r := by
  have hrow : ∀ r, ¬ p.Misread ops r ↔
      decide (holds (p.clauses ops isCountQuery) r = some true) = decide (p.Selects ops r) := by
    intro r
    rw [misread_iff h isCountQuery, not_not, decide_eq_decide]
  simp only [hrow, matching]
  constructor
  · intro heq r hr
    have hmem := congrArg (r ∈ ·) heq
    simpa [List.mem_filter, hr] using hmem
  · exact List.filter_congr

end Rows

/-! ### Filters that are lifted, and filters that are ignored -/

/-- Numbers, without texts to search and JSON values. -/
def demoFilterOps : FilterOps ℕ := { demoOps with supersetOf := fun _ _ => false }

/-- Rows with the heights 1 and 7. -/
def demoRows : List (Row DemoColumn ℕ) :=
  [fun | .id => some 1 | .height => some 1, fun | .id => some 2 | .height => some 7]

/-- An alternative to `whereIn` alone. -/
def alternativeOnly : Filters DemoColumn ℕ where
  whereIn := [(.id, [some 1])]
  orWhereIn := some (.id, [some 2])

/-- The heights from 5 on. -/
def withBounds : Filters DemoColumn ℕ :=
  { alternativeOnly with
    propBetweens := [{ property := .height, fromValue := some (some 5) }]
    whereIn := [(.id, [some 2])]
    orWhereIn := some (.id, [some 1]) }

/-- A height, and `where`. -/
def withWhere : Filters DemoColumn ℕ where
  queryParams := [(.height, some 7)]
  paramsWhere := some [(.id, some 1)]

/-- Both rows are selected. -/
theorem matching_alternativeOnly : alternativeOnly.orderKeys = [] ∧
    matching (alternativeOnly.clauses demoFilterOps false) demoRows =
      demoRows.filter (fun r => alternativeOnly.Selects demoFilterOps r) := by
  have hkeys : alternativeOnly.orderKeys = [] := rfl
  refine ⟨hkeys, (matching_eq_filter_iff hkeys false demoRows).mpr fun r hr => ?_⟩
  rw [misread_iff hkeys false, not_not]
  simp only [demoRows, List.mem_cons, List.not_mem_nil, or_false] at hr
  rcases hr with rfl | rfl
  · decide
  · decide

/-- The row with the height 1 is selected though the heights begin at 5, and though the height 7 is
asked for. -/
theorem filters_lifted_and_ignored :
    matching (withBounds.clauses demoFilterOps false) demoRows ≠
        demoRows.filter (fun r => withBounds.Selects demoFilterOps r) ∧
      matching (withWhere.clauses demoFilterOps false) demoRows ≠
        demoRows.filter (fun r => withWhere.Selects demoFilterOps r) := by
  constructor
  · intro heq
    have hlength := congrArg List.length heq
    revert hlength
    decide
  · intro heq
    have hlength := congrArg List.length heq
    revert hlength
    decide

end QueryBuilder

end SwaptoshiService
