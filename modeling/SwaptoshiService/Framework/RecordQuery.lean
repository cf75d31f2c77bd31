import SwaptoshiService.Framework.QueryBuilder

/-!
# Queries over records

A table whose rows are made from records. Without `orWhereIn` and `distinct`, all conditions of a
query are joined by `AND`, so if it is not sorted by a column that may be `NULL`, `find` and `count`
select the same records, those that meet the conditions: `find` answers a page of them in the order
that is asked for (`find_eq`), and `count` is their number (`count_eq`).
-/

namespace SwaptoshiService

namespace QueryBuilder

open Sql

variable {α C V : Type}

/-- The row meets the conditions, all of which are joined by `AND`. -/
def Params.Meets (ops : Ops V) (p : Params C V) (r : Row C V) : Prop :=
  All (p.front ops) r ∧ All (p.back ops) r

instance (ops : Ops V) (p : Params C V) (r : Row C V) : Decidable (p.Meets ops r) :=
  inferInstanceAs (Decidable (_ ∧ _))

theorem all_whereObject_append {ops : Ops V} {r : Row C V} (object object' : List (C × Option V)) :
    All (whereObject ops (object ++ object')) r ↔
      All (whereObject ops object) r ∧ All (whereObject ops object') r := by
  rw [whereObject, List.map_append, all_append, whereObject, whereObject]

/-- One of the values. -/
theorem whereIn_eq_true {ops : Ops V} (heq : ∀ x y, ops.eq x y = true ↔ x = y) {c : C}
    {values : List V} {r : Row C V} :
    whereIn ops c (values.map some) r = some true ↔ ∃ v ∈ values, r c = some v := by
  have hcompare : ∀ v, Sql.compare ops.eq c (some v) r = some true ↔ r c = some v := by
    intro v
    cases hcell : r c <;> simp [Sql.compare, hcell, heq]
  have hisIn : isIn ops.eq c (values.map some) r = some true ↔ ∃ v ∈ values, r c = some v := by
    induction values with
    | nil => simp [isIn]
    | cons v values ih =>
      have hcons : isIn ops.eq c ((v :: values).map some) r =
          (Sql.compare ops.eq c (some v) r).or (isIn ops.eq c (values.map some) r) := rfl
      rw [hcons, Truth.or_eq_true, hcompare, ih, List.exists_mem_cons_iff]
  rw [whereIn]
  split
  · rename_i hempty
    obtain rfl : values = [] := by simpa using hempty
    simp
  · exact hisIn

/-- The conditions of the filters that most queries have. -/
theorem meets_iff {ops : Ops V} {r : Row C V} {queryParams : List (C × Option V)}
    {propBetweens : List (PropBetween C V)} {whereIn : List (C × List (Option V))}
    {search orSearch : List (Search C)} {sort order : Option (C × Direction)} {limit : Option ℕ}
    {offset : ℕ} :
    Params.Meets ops
        { queryParams, propBetweens, whereIn, search, orSearch, sort, order, limit, offset } r ↔
      All (whereObject ops queryParams) r ∧ All (propBetweens.flatMap (propBetween ops)) r ∧
        (∀ entry ∈ whereIn, QueryBuilder.whereIn ops entry.1 entry.2 r = some true) ∧
        All (search.flatMap (searchConds ops)) r ∧
          All (group (orSearchClauses ops orSearch)) r := by
  have hgroup : group (ands (whereObject ops ([] : List (C × Option V)))) = [] := rfl
  rw [Params.Meets, Params.front, Params.back, hgroup]
  simp only [Option.map_none, Option.toList_none, Option.getD_none, List.map_nil, List.append_nil,
    all_append]
  simp only [and_assoc, All, List.forall_mem_map]

/-- Two objects of which one is to be met. -/
theorem meets_orWhere {ops : Ops V} {r : Row C V} {p : Params C V} (hp : p.orWhere = none)
    (object object' : List (C × Option V)) :
    Params.Meets ops { p with orWhere := some (object, object') } r ↔
      p.Meets ops r ∧ All (group (orWhereClauses ops object object')) r := by
  simp only [Params.Meets, Params.front, Params.back, hp, Option.map_some, Option.map_none,
    Option.getD_some, Option.getD_none, List.append_nil, all_append]
  grind

/-- Without alternatives, and without columns that are to be distinct. -/
structure Params.IsPlain (p : Params C V) : Prop where
  orWhereIn : p.orWhereIn = none
  distinct : p.distinct = []

/-- A table of records. -/
structure RecordTable (α C V : Type) where
  records : List α
  cells : α → Row C V
  primaryKey : C
  /-- The other columns of a composite primary key. -/
  primaryKeys : List C
  /-- The columns that may be `NULL`. -/
  nullable : C → Bool := fun _ => false
  ne_null : ∀ a ∈ records, ∀ c, nullable c = false → cells a c ≠ none
  required : nullable primaryKey = false := by rfl
  nodup : (records.map fun a => (primaryKey :: primaryKeys).map (cells a)).Nodup

namespace RecordTable

/-- The rows of the records. -/
def table (t : RecordTable α C V) : Table C V where
  primaryKey := t.primaryKey
  primaryKeys := t.primaryKeys
  rows := t.records.map t.cells
  primaryKey_ne_null r hr := by
    obtain ⟨a, ha, rfl⟩ := List.mem_map.mp hr
    exact t.ne_null a ha t.primaryKey t.required
  nodup := by
    rw [List.map_map]
    exact t.nodup

/-- The selected records, in the order that is asked for. -/
def select (ops : Ops V) (t : RecordTable α C V) (p : Params C V) : List α :=
  (queryBuilder ops p []).records ops.lt t.cells t.records

/-- The records that `find` answers with. -/
def findRecords (ops : Ops V) (t : RecordTable α C V) (p : Params C V) : List α :=
  page p.limit p.offset (t.select ops p)

/-- The number that `count` answers with. -/
def countRecords (ops : Ops V) (t : RecordTable α C V) (p : Params C V) : ℕ :=
  (t.records.filter fun a => p.Meets ops (t.cells a)).length

variable {ops : Ops V} {t : RecordTable α C V} {p : Params C V}

theorem holds_iff {a : α} (hp : p.IsPlain) (hkeys : ∀ key ∈ p.orderKeys, t.nullable key.1 = false)
    (ha : a ∈ t.records) {columns : List C} :
    holds (queryBuilder ops p columns).clauses (t.cells a) = some true ↔
      p.Meets ops (t.cells a) := by
  have hsort : p.sortNull (t.cells a) = false := by
    rw [Params.sortNull, List.any_eq_false]
    intro key hkey
    simpa using t.ne_null a ha key.1 (hkeys key hkey)
  rw [holds_queryBuilder, Params.orIn, hp.orWhereIn]
  simp [hsort, Params.Meets]

theorem holds_count_iff {r : Row C V} (hp : p.IsPlain) :
    holds (countClauses ops p) r = some true ↔ p.Meets ops r := by
  rw [holds_countClauses, Params.orIn, hp.orWhereIn]
  rfl

theorem select_eq (hp : p.IsPlain) (hkeys : ∀ key ∈ p.orderKeys, t.nullable key.1 = false) :
    t.select ops p = (t.records.filter fun a => p.Meets ops (t.cells a)).insertionSort fun a b =>
      before ops.lt p.orderKeys (t.cells a) (t.cells b) := by
  have hfilter : (t.records.filter fun a => p.Meets ops (t.cells a)) = t.records.filter fun a =>
      holds (queryBuilder ops p []).clauses (t.cells a) = some true :=
    List.filter_congr fun a ha => decide_eq_decide.mpr (holds_iff hp hkeys ha).symm
  rw [hfilter]
  rfl

/-- The selected records are those that meet the conditions. -/
theorem select_perm (hp : p.IsPlain) (hkeys : ∀ key ∈ p.orderKeys, t.nullable key.1 = false) :
    (t.select ops p).Perm (t.records.filter fun a => p.Meets ops (t.cells a)) := by
  rw [select_eq hp hkeys]
  exact List.perm_insertionSort _ _

/-- What `find` answers. -/
theorem find_eq [DecidableEq V] (hp : p.IsPlain) (columns : List C) :
    find ops t.table p (some columns) = (t.findRecords ops p).map fun a =>
      (queryBuilder ops p columns).columns.map (t.cells a) := by
  refine Select.run_map (queryBuilder ops p columns) ops.lt t.cells t.records ?_
  simp [queryBuilder, hp.distinct]

/-- What `count` answers. -/
theorem count_eq [DecidableEq V] (hp : p.IsPlain) :
    count ops t.table p none = .ok (t.countRecords ops p) := by
  have hmatching : matching (countClauses ops p) (t.records.map t.cells) =
      (t.records.filter fun a => p.Meets ops (t.cells a)).map t.cells := by
    rw [matching, List.filter_map]
    refine congrArg (List.map t.cells) (List.filter_congr fun a _ => ?_)
    exact decide_eq_decide.mpr (holds_count_iff hp)
  rw [count, hp.distinct, countRecords]
  simp only [table, Option.getD_none]
  rw [hmatching, countColumn_of_ne_none, List.length_map]
  intro r hr
  obtain ⟨a, ha, rfl⟩ := List.mem_map.mp hr
  exact t.ne_null a (List.mem_of_mem_filter ha) _ t.required

end RecordTable

end QueryBuilder

end SwaptoshiService
