import Mathlib.Data.List.Basic
import SwaptoshiService.Framework.Number
import SwaptoshiService.Lib.Except

/-!
# Writing a row

`upsert` (`framework/src/database/util.js`) casts every value of a row to the type of its column
(`cast`, `mapRowsBySchema`) and sends `INSERT … ON DUPLICATE KEY UPDATE`. A value of its column's
type is stored as it is, and `undefined` is stored as `NULL`.

`null` is not: only `undefined` is asked for before the conversions of the language take over, and
these turn `null` into the text `"null"`, the number `0`, `false`, the JSON document `null` (which
`IS NULL` does not find), and throw on `BigInt(null)`. Only a column of another type, such as
`decimal` or `text`, is left as `NULL`.

A column has a size, a range or a precision, by `loadSchema`, and keys are compared by the weights of
the collation; a schema says what its columns keep and what is the same in a key.
`upsert_round_trip_iff` says for which rows the table then holds what was given.
-/

namespace SwaptoshiService

namespace Upsert

/-! ### Values -/

/-- The types that `cast` knows; `other` are those that it leaves alone, as `decimal` and `text`. -/
inductive ColumnType
  | number
  | integer
  | string
  | boolean
  | bigInteger
  | json
  | other
  deriving DecidableEq

/-- A value of the language; the number `none` is `NaN`. -/
inductive JsValue (J : Type)
  | undefined
  | null
  | boolean (b : Bool)
  | number (x : Option ℚ)
  | bigint (z : ℤ)
  | string (s : String)
  | object (j : J)
  deriving DecidableEq

/-- The conversions that look into a text, a number or an object. -/
structure Conversions (J : Type) where
  textToNumber : String → Option ℚ
  textToBigInt : String → Option ℤ
  numberToText : Option ℚ → String
  objectToText : J → String
  jsonText : JsValue J → String

variable {C J : Type} (js : Conversions J)

/-- `Number(val)`. -/
def toNumber : JsValue J → Option ℚ
  | .undefined => none
  | .null => some 0
  | .boolean b => some (if b then 1 else 0)
  | .number x => x
  | .bigint z => some (jsNumber z)
  | .string s => js.textToNumber s
  | .object j => js.textToNumber (js.objectToText j)

/-- `String(val)`. -/
def toText : JsValue J → String
  | .undefined => "undefined"
  | .null => "null"
  | .boolean b => toString b
  | .number x => js.numberToText x
  | .bigint z => toString z
  | .string s => s
  | .object j => js.objectToText j

/-- `Boolean(val)`. -/
def toBoolean : JsValue J → Bool
  | .undefined | .null | .number none => false
  | .boolean b => b
  | .number (some x) => x ≠ 0
  | .bigint z => z ≠ 0
  | .string s => s ≠ ""
  | .object _ => true

/-- `BigInt(val)`. -/
def toBigInt : JsValue J → Except String ℤ
  | .undefined | .null => .error "Cannot convert to a BigInt"
  | .boolean b => .ok (if b then 1 else 0)
  | .number none => .error "The number cannot be converted to a BigInt"
  | .number (some x) =>
    if x.isInt then .ok x.num
    else .error "The number cannot be converted to a BigInt because it is not an integer"
  | .bigint z => .ok z
  | .string s => (js.textToBigInt s).elim (.error "Cannot convert to a BigInt") .ok
  | .object j =>
    (js.textToBigInt (js.objectToText j)).elim (.error "Cannot convert to a BigInt") .ok

/-- `JSON.stringify(val)`. -/
def stringify : JsValue J → Except String (JsValue J)
  | .undefined => .ok .undefined
  | .null | .number none => .ok (.string "null")
  | .bigint _ => .error "Do not know how to serialize a BigInt"
  | v => .ok (.string (js.jsonText v))

/-- `cast(val, type)`. -/
def cast (val : JsValue J) (type : ColumnType) : Except String (JsValue J) :=
  if val matches .undefined then .ok .null
  else match type with
    | .number | .integer => .ok (.number (toNumber js val))
    | .string => .ok (.string (toText js val))
    | .boolean => .ok (.boolean (toBoolean val))
    | .bigInteger => do return .bigint (← toBigInt js val)
    | .json => stringify js val
    | .other => .ok val

/-- `getValue(val)`. -/
def getValue : JsValue J → JsValue J
  | .undefined | .number none => .null
  | val => val

/-! ### Tables -/

/-- What a column of a stored row holds. -/
inductive Cell (J : Type)
  | null
  | value (v : JsValue J)
  /-- A document, by its text. -/
  | document (text : String)
  deriving DecidableEq

/-- The cell holds `NULL`. -/
def Cell.isNull : Cell J → Bool
  | .null => true
  | _ => false

/-- The cell in which the database stores a value. -/
def storedAs (type : ColumnType) : JsValue J → Cell J
  | .undefined | .null => .null
  | .string s => if type = .json then .document s else .value (.string s)
  | v => .value v

/-- A table: the columns with their types, those that cannot be `NULL`, the primary key, and what
the database fills into a column that is not given. -/
structure Schema (C J : Type) where
  columns : List C
  type : C → ColumnType
  notNull : C → Bool
  primaryKey : List C
  fill : C → Cell J
  /-- What a column keeps of a cell: a text that is too long or a number out of range is refused, a
  number with too many places is rounded. -/
  holds : C → Cell J → Option (Cell J)
  /-- Cells of one weight are the same in a key. -/
  weight : C → Cell J → Cell J
  primaryKey_subset : ∀ c ∈ primaryKey, c ∈ columns
  primaryKey_notNull : ∀ c ∈ primaryKey, notNull c = true
  holds_null : ∀ c, holds c .null = some .null
  holds_isNull : ∀ c x y, holds c x = some y → y.isNull = x.isNull
  holds_holds : ∀ c x y, holds c x = some y → holds c y = some y
  holds_fill : ∀ c, holds c (fill c) = some (fill c)

/-- The primary key of a row. -/
def Schema.key (s : Schema C J) (r : C → Cell J) : List (Cell J) := s.primaryKey.map r

/-- What the index compares of a primary key. -/
def Schema.weights (s : Schema C J) (key : List (Cell J)) : List (Cell J) :=
  List.zipWith s.weight s.primaryKey key

theorem Schema.weights_key (s : Schema C J) (r : C → Cell J) :
    s.weights (s.key r) = s.primaryKey.map fun c => s.weight c (r c) := by
  rw [weights, key, List.zipWith_map_right, List.zipWith_self]

/-- The rows of a table, by the weights of their primary keys. -/
structure Store (s : Schema C J) where
  row : List (Cell J) → Option (C → Cell J)
  keyed : ∀ index r, row index = some r → s.weights (s.key r) = index
  not_null : ∀ index r, row index = some r → ∀ c ∈ s.columns, s.notNull c = true →
    (r c).isNull = false
  held : ∀ index r, row index = some r → ∀ c ∈ s.columns, s.holds c (r c) = some (r c)

/-- A row of `mapRowsBySchema(rawRows, schema)`; an `item` may lack columns. -/
def mapRow (type : C → ColumnType) (item : C → Option (JsValue J)) :
    List C → Except String (List (C × JsValue J))
  | [] => .ok []
  | c :: columns =>
    match item c with
    | none => mapRow type item columns
    | some val => do
      let cell ← cast js val (type c)
      let rest ← mapRow type item columns
      return (c, getValue cell) :: rest

section Insert

variable [DecidableEq C] {s : Schema C J} {row : List (C × JsValue J)} {c : C}

/-- What a column keeps of a value that it is given. -/
def Schema.stored (s : Schema C J) (c : C) (v : JsValue J) : Option (Cell J) :=
  s.holds c (storedAs (s.type c) v)

/-- The cell of a row after it is written; the columns that are not given hold `rest`. -/
def Schema.written (s : Schema C J) (row : List (C × JsValue J)) (rest : C → Cell J) (c : C) :
    Cell J :=
  match row.lookup c with
  | some v => (s.stored c v).getD .null
  | none => rest c

/-- A column refuses what it is given, is given as `NULL` although it cannot be, or is not given
although it has to be. -/
def Schema.rejects (s : Schema C J) (row : List (C × JsValue J)) : Bool :=
  s.columns.any fun c => (row.lookup c).any (fun v => (s.stored c v).isNone) ||
    s.notNull c && (s.written row s.fill c).isNull

/-- The primary key with which a row is inserted. -/
def Schema.keyOf (s : Schema C J) (row : List (C × JsValue J)) : List (Cell J) :=
  s.key (s.written row s.fill)

theorem Schema.rejects_eq_false_iff : s.rejects row = false ↔ ∀ c ∈ s.columns,
    (∀ v, row.lookup c = some v → (s.stored c v).isSome) ∧
      (s.notNull c = true → (s.written row s.fill c).isNull = false) := by
  have hgiven (c : C) : ((row.lookup c).any fun v => (s.stored c v).isNone) = false ↔
      ∀ v, row.lookup c = some v → (s.stored c v).isSome := by
    cases row.lookup c <;> simp [Option.isSome_iff_ne_none]
  simp only [rejects, List.any_eq_false, Bool.or_eq_true, not_or, Bool.not_eq_true, hgiven,
    Bool.and_eq_false_imp]

/-- A row stays in its place of the index when it is written to. -/
theorem Schema.weights_written {old : C → Cell J}
    (hkey : s.weights (s.key old) = s.weights (s.keyOf row)) :
    s.weights (s.key (s.written row old)) = s.weights (s.keyOf row) := by
  rw [keyOf, weights_key, weights_key] at hkey ⊢
  refine List.map_congr_left fun c hc => ?_
  have hold := List.map_inj_left.mp hkey c hc
  rw [written, written] at *
  cases hv : row.lookup c with
  | some v => rfl
  | none => rwa [hv] at hold

theorem Schema.written_isNull_eq_false {old : C → Cell J} (hold : (old c).isNull = false)
    (hnew : (s.written row s.fill c).isNull = false) : (s.written row old c).isNull = false := by
  rw [written] at hnew ⊢
  split
  · next v hv => rwa [hv] at hnew
  · exact hold

/-- The cells of the row in a place of the index, or of a new one. -/
def Store.current (t : Store s) (index : List (Cell J)) : C → Cell J := (t.row index).getD s.fill

theorem Store.weights_written (t : Store s) (row : List (C × JsValue J)) :
    s.weights (s.key (s.written row (t.current (s.weights (s.keyOf row))))) =
      s.weights (s.keyOf row) := by
  rw [current]
  cases hold : t.row (s.weights (s.keyOf row)) with
  | none => rfl
  | some old => exact Schema.weights_written (t.keyed _ _ hold)

theorem Store.written_not_null (t : Store s) (hreject : ¬ s.rejects row = true)
    (hc : c ∈ s.columns) (hnull : s.notNull c = true) :
    (s.written row (t.current (s.weights (s.keyOf row))) c).isNull = false := by
  have hnew := (Schema.rejects_eq_false_iff.mp (Bool.eq_false_of_not_eq_true hreject) c hc).2 hnull
  rw [current]
  cases hold : t.row (s.weights (s.keyOf row)) with
  | none => exact hnew
  | some old => exact Schema.written_isNull_eq_false (t.not_null _ _ hold c hc hnull) hnew

theorem Store.written_held (t : Store s) (hreject : ¬ s.rejects row = true)
    (hc : c ∈ s.columns) (index : List (Cell J)) :
    s.holds c (s.written row (t.current index) c) = some (s.written row (t.current index) c) := by
  have hnew := (Schema.rejects_eq_false_iff.mp (Bool.eq_false_of_not_eq_true hreject) c hc).1
  rw [Schema.written]
  cases hv : row.lookup c with
  | some v =>
    obtain ⟨y, hy⟩ := Option.isSome_iff_exists.mp (hnew v hv)
    simp only [hy, Option.getD_some]
    exact s.holds_holds c _ y hy
  | none =>
    rw [current]
    cases hold : t.row index with
    | none => exact s.holds_fill c
    | some old => exact t.held _ _ hold c hc

variable [DecidableEq J]

/-- `knex(tableName).insert(row).onConflict(primaryKey).merge()`. -/
def Store.insertMerge (t : Store s) (row : List (C × JsValue J)) : Except String (Store s) :=
  if hreject : s.rejects row = true then .error "Column cannot be null"
  else .ok {
    row := Function.update t.row (s.weights (s.keyOf row))
      (some (s.written row (t.current (s.weights (s.keyOf row)))))
    keyed := fun index r hr => by
      rcases eq_or_ne index (s.weights (s.keyOf row)) with rfl | hne
      · rw [Function.update_self] at hr
        rw [← Option.some.inj hr, t.weights_written]
      · rw [Function.update_of_ne hne] at hr
        exact t.keyed index r hr
    not_null := fun index r hr c hc hnull => by
      rcases eq_or_ne index (s.weights (s.keyOf row)) with rfl | hne
      · rw [Function.update_self] at hr
        rw [← Option.some.inj hr]
        exact t.written_not_null hreject hc hnull
      · rw [Function.update_of_ne hne] at hr
        exact t.not_null index r hr c hc hnull
    held := fun index r hr c hc => by
      rcases eq_or_ne index (s.weights (s.keyOf row)) with rfl | hne
      · rw [Function.update_self] at hr
        rw [← Option.some.inj hr]
        exact t.written_held hreject hc _
      · rw [Function.update_of_ne hne] at hr
        exact t.held index r hr c hc }

end Insert

/-- `upsert(inputRows)`. -/
def upsert [DecidableEq C] [DecidableEq J] {s : Schema C J} (t : Store s)
    (inputRows : List (C → Option (JsValue J))) : Except String (Store s) := do
  let rows ← inputRows.mapM fun item => mapRow js s.type item s.columns
  rows.foldlM Store.insertMerge t

/-! ### Casting a value -/

section Cast

variable {js : Conversions J} {type : ColumnType} {v : JsValue J}

/-- The value is of the type of its column. -/
def OfType : ColumnType → JsValue J → Prop
  | .number, .number (some _) => True
  | .integer, .number (some x) => x.isInt = true
  | .string, .string _ => True
  | .boolean, .boolean _ => True
  | .bigInteger, .bigint _ => True
  | .json, .boolean _ | .json, .number (some _) | .json, .string _ | .json, .object _ => True
  | .other, .boolean _ | .other, .number (some _) | .other, .bigint _ | .other, .string _
  | .other, .object _ => True
  | _, _ => False

/-- The cell that holds exactly the value. -/
def exactly (js : Conversions J) (type : ColumnType) : JsValue J → Cell J
  | .undefined | .null => .null
  | v => if type = .json then .document (js.jsonText v) else .value v

/-- `undefined` is stored as `NULL`. -/
theorem cast_undefined (js : Conversions J) (type : ColumnType) :
    cast js .undefined type = .ok .null := rfl

/-- A value of its column's type is stored as it is. -/
theorem cast_of_type (js : Conversions J) (h : OfType type v) : ∃ w, cast js v type = .ok w ∧
    storedAs type (getValue w) = exactly js type v := by
  match type, v, h with
  | .number, .number (some x), _ => exact ⟨_, rfl, rfl⟩
  | .integer, .number (some x), _ => exact ⟨_, rfl, rfl⟩
  | .string, .string s, _ => exact ⟨_, rfl, rfl⟩
  | .boolean, .boolean b, _ => exact ⟨_, rfl, rfl⟩
  | .bigInteger, .bigint z, _ => exact ⟨_, rfl, rfl⟩
  | .json, .boolean b, _ => exact ⟨_, rfl, rfl⟩
  | .json, .number (some x), _ => exact ⟨_, rfl, rfl⟩
  | .json, .string s, _ => exact ⟨_, rfl, rfl⟩
  | .json, .object j, _ => exact ⟨_, rfl, rfl⟩
  | .other, .boolean b, _ => exact ⟨_, rfl, rfl⟩
  | .other, .number (some x), _ => exact ⟨_, rfl, rfl⟩
  | .other, .bigint z, _ => exact ⟨_, rfl, rfl⟩
  | .other, .string s, _ => exact ⟨_, rfl, rfl⟩
  | .other, .object j, _ => exact ⟨_, rfl, rfl⟩

/-- **Where `null` is stored as `NULL`.** -/
theorem cast_null (js : Conversions J) :
    (∃ w, cast js .null type = .ok w ∧ storedAs type (getValue w) = .null) ↔ type = .other := by
  cases type with
  | number => simp [cast, toNumber, getValue, storedAs]
  | integer => simp [cast, toNumber, getValue, storedAs]
  | string => simp [cast, toText, getValue, storedAs]
  | boolean => simp [cast, toBoolean, getValue, storedAs]
  | bigInteger => simp [cast, toBigInt, bind, Except.bind]
  | json => simp [cast, stringify, getValue, storedAs]
  | other => simp [cast, getValue, storedAs]

/-- The cell that holds exactly a value is `NULL` for no other value than these. -/
theorem exactly_isNull : (exactly js type v).isNull = true ↔ v = .undefined ∨ v = .null := by
  by_cases htype : type = .json <;> cases v <;> simp [exactly, Cell.isNull, htype]

end Cast

/-! ### Casting a row -/

section MapRow

variable {js : Conversions J} {type : C → ColumnType} {item : C → Option (JsValue J)}
  {columns : List C} {row : List (C × JsValue J)} {c : C} {v : JsValue J}

/-- A row is made of the casts of the columns that are given. -/
theorem lookup_mapRow [DecidableEq C] (h : mapRow js type item columns = .ok row) :
    (item c = none → row.lookup c = none) ∧
      ∀ v, c ∈ columns → item c = some v →
        ∃ w, cast js v (type c) = .ok w ∧ row.lookup c = some (getValue w) := by
  induction columns generalizing row with
  | nil =>
    obtain rfl := Except.ok.inj h
    exact ⟨fun _ => rfl, fun v hc => absurd hc List.not_mem_nil⟩
  | cons c' columns ih =>
    rw [mapRow] at h
    cases hitem : item c' with
    | none =>
      rw [hitem] at h
      obtain ⟨hnone, hsome⟩ := ih h
      refine ⟨hnone, fun v hc hv => ?_⟩
      rcases List.mem_cons.mp hc with rfl | hc
      · rw [hitem] at hv
        exact absurd hv (by simp)
      · exact hsome v hc hv
    | some v' =>
      rw [hitem] at h
      obtain ⟨w', hcast, h⟩ := bind_eq_ok_iff.mp h
      obtain ⟨rest, hrest, h⟩ := bind_eq_ok_iff.mp h
      obtain ⟨hnone, hsome⟩ := ih hrest
      rw [← pure_eq_ok_iff.mp h, List.lookup_cons]
      by_cases heq : c = c'
      · subst heq
        simp only [BEq.rfl, hitem]
        exact ⟨fun h => absurd h (by simp), fun v _ hv =>
          ⟨w', Option.some.inj hv ▸ hcast, rfl⟩⟩
      · have hbeq : (c == c') = false := by simpa using heq
        simp only [hbeq]
        refine ⟨hnone, fun v hc hv => hsome v ?_ hv⟩
        exact (List.mem_cons.mp hc).resolve_left heq

theorem exists_mapRow_ok
    (h : ∀ c ∈ columns, ∀ v, item c = some v → ∃ w, cast js v (type c) = .ok w) :
    ∃ row, mapRow js type item columns = .ok row := by
  induction columns with
  | nil => exact ⟨[], rfl⟩
  | cons c columns ih =>
    obtain ⟨rest, hrest⟩ := ih fun c' hc' => h c' (List.mem_cons_of_mem _ hc')
    rw [mapRow]
    cases hitem : item c with
    | none => exact ⟨rest, hrest⟩
    | some v =>
      obtain ⟨w, hw⟩ := h c List.mem_cons_self v hitem
      exact ⟨_, bind_eq_ok_iff.mpr ⟨w, hw, bind_eq_ok_iff.mpr ⟨rest, hrest, rfl⟩⟩⟩

end MapRow

/-! ### The round trip -/

section RoundTrip

variable {js : Conversions J} {s : Schema C J}

/-- A row for `upsert` whose values are null, undefined or of the type of the column. -/
structure Item (s : Schema C J) where
  cells : C → Option (JsValue J)
  typed : ∀ c v, cells c = some v → v = .undefined ∨ v = .null ∨ OfType (s.type c) v

/-- What the row holds when every value is stored as given; the columns that are not given hold
`rest`. -/
def Item.holding (js : Conversions J) (item : Item s) (rest : C → Cell J) (c : C) : Cell J :=
  match item.cells c with
  | some v => exactly js (s.type c) v
  | none => rest c

/-- The primary key of the row. -/
def Item.key (js : Conversions J) (item : Item s) : List (Cell J) :=
  s.key (item.holding js s.fill)

/-- The row with a primary key. -/
def Store.find [DecidableEq J] (t : Store s) (key : List (Cell J)) : Option (C → Cell J) :=
  (t.row (s.weights key)).filter fun r => s.key r = key

/-- **The round trip**: `upsert` succeeds, the stored row holds what is given and keeps what is not
given, and the rows with other primary keys are as before. -/
def RoundTrips [DecidableEq C] [DecidableEq J] (js : Conversions J) (t : Store s)
    (item : Item s) : Prop :=
  ∃ t' r, upsert js t [item.cells] = .ok t' ∧ t'.find (item.key js) = some r ∧
    (∀ c ∈ s.columns, r c = item.holding js ((t.find (item.key js)).getD s.fill) c) ∧
    ∀ key, key ≠ item.key js → t'.find key = t.find key

/-- The row leaves no column `NULL` that cannot be. -/
def Item.Complete (item : Item s) : Prop :=
  ∀ c ∈ s.columns, s.notNull c = true →
    item.cells c ≠ some .undefined ∧ item.cells c ≠ some .null ∧
      (item.cells c = none → (s.fill c).isNull = false)

/-- No `null` is given to a column of one of the types that are cast. -/
def Item.NullsKept (item : Item s) : Prop :=
  ∀ c ∈ s.columns, item.cells c = some .null → s.type c = .other

/-- Every column can hold what it is given. -/
def Item.Fits (js : Conversions J) (item : Item s) : Prop :=
  ∀ c ∈ s.columns, ∀ v, item.cells c = some v →
    s.holds c (exactly js (s.type c) v) = some (exactly js (s.type c) v)

/-- The table has no row whose primary key is another one of the same weights. -/
def Item.Distinct (js : Conversions J) (t : Store s) (item : Item s) : Prop :=
  ∀ old, t.row (s.weights (item.key js)) = some old → s.key old = item.key js

variable {item : Item s}

theorem exists_mapRow_of_null (hnull : item.NullsKept) :
    ∃ row, mapRow js s.type item.cells s.columns = .ok row := by
  refine exists_mapRow_ok fun c hc v hv => ?_
  rcases item.typed c v hv with rfl | rfl | htyped
  · exact ⟨_, cast_undefined js _⟩
  · obtain ⟨w, hw, -⟩ := (cast_null js).mpr (hnull c hc hv)
    exact ⟨w, hw⟩
  · obtain ⟨w, hw, -⟩ := cast_of_type js htyped
    exact ⟨w, hw⟩

theorem find_eq_some_iff [DecidableEq J] {t : Store s} {key : List (Cell J)} {r : C → Cell J} :
    t.find key = some r ↔ t.row (s.weights key) = some r ∧ s.key r = key := by
  rw [Store.find, Option.filter_eq_some_iff, decide_eq_true_eq]

theorem Item.Distinct.find_eq [DecidableEq J] {t : Store s} (h : item.Distinct js t) :
    t.find (item.key js) = t.row (s.weights (item.key js)) := by
  rw [Store.find]
  cases hold : t.row (s.weights (item.key js)) with
  | none => rfl
  | some old => simp [Option.filter, h old hold]

/-- What the row that is there holds in the primary key is what is given. -/
theorem Item.Distinct.key_holding {t : Store s} (h : item.Distinct js t) :
    s.key (item.holding js (t.current (s.weights (item.key js)))) = item.key js := by
  refine List.map_congr_left fun c hc => ?_
  rw [Item.holding, Item.holding]
  cases hv : item.cells c with
  | some v => rfl
  | none =>
    rw [Store.current]
    cases hold : t.row (s.weights (item.key js)) with
    | none => rfl
    | some old =>
      have hcell := List.map_inj_left.mp (h old hold) c hc
      rwa [Item.holding, hv] at hcell

variable [DecidableEq C] {t t' : Store s} {row : List (C × JsValue J)} {c : C}

theorem upsert_singleton [DecidableEq J] {cells : C → Option (JsValue J)} :
    upsert js t [cells] = .ok t' ↔
      ∃ row, mapRow js s.type cells s.columns = .ok row ∧ t.insertMerge row = .ok t' := by
  simp only [upsert, List.mapM_cons, List.mapM_nil, bind_assoc, pure_bind, List.foldlM_cons,
    List.foldlM_nil, bind_pure, bind_eq_ok_iff]

theorem insertMerge_ok [DecidableEq J] (h : t.insertMerge row = .ok t') : s.rejects row = false ∧
    t'.row = Function.update t.row (s.weights (s.keyOf row))
      (some (s.written row (t.current (s.weights (s.keyOf row))))) := by
  rw [Store.insertMerge] at h
  split at h
  · exact absurd h (by simp)
  · next hreject => exact ⟨Bool.eq_false_of_not_eq_true hreject, by rw [← Except.ok.inj h]⟩

/-- A column is given the value itself, except for a `null` that is cast. -/
theorem stored_eq_holds (hrow : mapRow js s.type item.cells s.columns = .ok row)
    (hc : c ∈ s.columns) {v : JsValue J} (hv : item.cells c = some v)
    (hnull : v = .null → s.type c = .other) :
    ∃ w, row.lookup c = some w ∧ s.stored c w = s.holds c (exactly js (s.type c) v) := by
  obtain ⟨w, hw, hlookup⟩ := (lookup_mapRow hrow).2 v hc hv
  refine ⟨getValue w, hlookup, congrArg (s.holds c) ?_⟩
  rcases item.typed c v hv with rfl | rfl | htyped
  · rw [cast_undefined] at hw
    rw [← Except.ok.inj hw]
    rfl
  · obtain ⟨w', hw', hstored⟩ := (cast_null js).mpr (hnull rfl)
    rw [Except.ok.inj (hw.symm.trans hw'), hstored]
    rfl
  · obtain ⟨w', hw', hstored⟩ := cast_of_type js htyped
    rw [Except.ok.inj (hw.symm.trans hw'), hstored]

/-- The row holds what is given, if the column can, except for a `null` that is cast. -/
theorem written_eq_holding (hrow : mapRow js s.type item.cells s.columns = .ok row)
    (hfits : item.Fits js) (hc : c ∈ s.columns)
    (hnull : item.cells c = some .null → s.type c = .other) (rest : C → Cell J) :
    s.written row rest c = item.holding js rest c := by
  rw [Schema.written, Item.holding]
  cases hv : item.cells c with
  | none => rw [(lookup_mapRow hrow).1 hv]
  | some v =>
    obtain ⟨w, hlookup, hstored⟩ := stored_eq_holds hrow hc hv fun h => hnull (h ▸ hv)
    rw [hlookup]
    dsimp only
    rw [hstored, hfits c hc v hv, Option.getD_some]

/-- A `null` that is cast is not stored as `NULL`. -/
theorem written_null (hrow : mapRow js s.type item.cells s.columns = .ok row)
    (hreject : s.rejects row = false) (hc : c ∈ s.columns) (hv : item.cells c = some .null)
    {rest : C → Cell J} (hwritten : s.written row rest c = .null) : s.type c = .other := by
  obtain ⟨w, hw, hlookup⟩ := (lookup_mapRow hrow).2 .null hc hv
  obtain ⟨y, hy⟩ := Option.isSome_iff_exists.mp
    ((Schema.rejects_eq_false_iff.mp hreject c hc).1 _ hlookup)
  rw [Schema.written, hlookup] at hwritten
  dsimp only at hwritten
  rw [hy, Option.getD_some] at hwritten
  subst hwritten
  have hnull := s.holds_isNull c _ _ hy
  refine (cast_null js).mp ⟨w, hw, ?_⟩
  cases hcell : storedAs (s.type c) (getValue w) with
  | null => rfl
  | _ => simp [hcell, Cell.isNull] at hnull

/-- Of a complete row the key is written as given. -/
theorem keyOf_eq_key (hrow : mapRow js s.type item.cells s.columns = .ok row)
    (hfits : item.Fits js)
    (hgiven : ∀ c ∈ s.columns, s.notNull c = true → item.cells c ≠ some .null) :
    s.keyOf row = item.key js := by
  refine List.map_congr_left fun c hc => ?_
  have hc' := s.primaryKey_subset c hc
  exact written_eq_holding hrow hfits hc'
    (fun hv => absurd hv (hgiven c hc' (s.primaryKey_notNull c hc))) _

/-- The database takes a complete row that fits. -/
theorem Item.Complete.not_rejects (hcomplete : item.Complete) (hnull : item.NullsKept)
    (hfits : item.Fits js) (hrow : mapRow js s.type item.cells s.columns = .ok row) :
    s.rejects row = false := by
  refine Schema.rejects_eq_false_iff.mpr fun c hc => ⟨fun w hw => ?_, fun hnotNull => ?_⟩
  · cases hv : item.cells c with
    | none => exact absurd ((lookup_mapRow hrow).1 hv) (by simp [hw])
    | some v =>
      obtain ⟨w', hlookup, hstored⟩ :=
        stored_eq_holds hrow hc hv fun h => hnull c hc (h ▸ hv)
      obtain rfl := Option.some.inj (hlookup.symm.trans hw)
      rw [hstored, hfits c hc v hv, Option.isSome_some]
  · rw [written_eq_holding hrow hfits hc (hnull c hc), Item.holding]
    obtain ⟨hundefined, hnull', hfill⟩ := hcomplete c hc hnotNull
    cases hv : item.cells c with
    | none => exact hfill hv
    | some v =>
      rw [hv] at hundefined hnull'
      refine Bool.eq_false_of_not_eq_true fun h => ?_
      rcases exactly_isNull.mp h with rfl | rfl
      · exact hundefined rfl
      · exact hnull' rfl

variable [DecidableEq J]

/-- A row that is stored as given could be, no `null` of it is cast, it fits, and it takes no other
row's place. -/
theorem RoundTrips.conditions (h : RoundTrips js t item) :
    item.Complete ∧ item.NullsKept ∧ item.Fits js ∧ item.Distinct js t := by
  obtain ⟨t', r, hrun, hfind, hholds, hother⟩ := h
  obtain ⟨row, hrow, hmerge⟩ := upsert_singleton.mp hrun
  obtain ⟨hreject, hstore⟩ := insertMerge_ok hmerge
  obtain ⟨hr, hrkey⟩ := find_eq_some_iff.mp hfind
  -- what the row gives to a column that cannot be `NULL` is not `NULL`
  have hgiven : ∀ c ∈ s.columns, s.notNull c = true → ∀ v, item.cells c = some v →
      ¬ (v = .undefined ∨ v = .null) := by
    intro c hc hnotNull v hv hnull
    have hcell := t'.not_null _ r hr c hc hnotNull
    rw [hholds c hc, Item.holding, hv, exactly_isNull.mpr hnull] at hcell
    exact absurd hcell (by simp)
  -- a column of the table holds what it can hold
  have hfits : item.Fits js := by
    intro c hc v hv
    have hcell := t'.held _ r hr c hc
    rwa [hholds c hc, Item.holding, hv] at hcell
  have hkey : s.keyOf row = item.key js :=
    keyOf_eq_key hrow hfits fun c hc hnotNull hv => hgiven c hc hnotNull _ hv (.inr rfl)
  have hwritten : s.written row (t.current (s.weights (item.key js))) = r := by
    rw [hstore, ← hkey, Function.update_self] at hr
    rw [← hkey]
    exact Option.some.inj hr
  refine ⟨fun c hc hnotNull => ⟨fun hv => hgiven c hc hnotNull _ hv (.inl rfl),
    fun hv => hgiven c hc hnotNull _ hv (.inr rfl), fun hnone => ?_⟩, fun c hc hv => ?_, hfits,
    fun old hold => ?_⟩
  · have hfill := (Schema.rejects_eq_false_iff.mp hreject c hc).2 hnotNull
    rwa [Schema.written, (lookup_mapRow hrow).1 hnone] at hfill
  · have hnull : s.written row (t.current (s.weights (item.key js))) c = .null := by
      rw [hwritten, hholds c hc, Item.holding, hv]
      rfl
    exact written_null hrow hreject hc hv hnull
  · -- A row with another key of these weights would be there no longer.
    by_contra hne
    have hindex : s.weights (s.key old) = s.weights (item.key js) := t.keyed _ _ hold
    have hfound : t.find (s.key old) = some old := find_eq_some_iff.mpr ⟨hindex ▸ hold, rfl⟩
    obtain ⟨hstill, -⟩ := find_eq_some_iff.mp ((hother _ hne).trans hfound)
    rw [hindex, hr] at hstill
    exact hne (Option.some.inj hstill ▸ hrkey)

theorem Item.Complete.roundTrips (hcomplete : item.Complete) (hnull : item.NullsKept)
    (hfits : item.Fits js) (hdistinct : item.Distinct js t) : RoundTrips js t item := by
  obtain ⟨row, hrow⟩ : ∃ row, mapRow js s.type item.cells s.columns = .ok row :=
    exists_mapRow_of_null hnull
  have hkey : s.keyOf row = item.key js :=
    keyOf_eq_key hrow hfits fun c hc hnotNull => (hcomplete c hc hnotNull).2.1
  have hreject : ¬ s.rejects row = true := by
    rw [hcomplete.not_rejects hnull hfits hrow]
    simp
  obtain ⟨t', hmerge⟩ : ∃ t', t.insertMerge row = .ok t' := ⟨_, dif_neg hreject⟩
  obtain ⟨-, hstore⟩ := insertMerge_ok hmerge
  rw [hkey] at hstore
  have hholds : ∀ c ∈ s.columns, s.written row (t.current (s.weights (item.key js))) c =
      item.holding js (t.current (s.weights (item.key js))) c := fun c hc =>
    written_eq_holding hrow hfits hc (hnull c hc) _
  have hwritten : s.key (s.written row (t.current (s.weights (item.key js)))) = item.key js :=
    (List.map_congr_left fun c hc => hholds c (s.primaryKey_subset c hc)).trans
      hdistinct.key_holding
  refine ⟨t', _, upsert_singleton.mpr ⟨row, hrow, hmerge⟩,
    find_eq_some_iff.mpr ⟨by rw [hstore, Function.update_self], hwritten⟩, fun c hc => ?_,
    fun key hne => ?_⟩
  · rw [hdistinct.find_eq]
    exact hholds c hc
  · rw [Store.find, Store.find, hstore]
    by_cases hindex : s.weights key = s.weights (item.key js)
    · -- What is in this place of the index has the key of the row, before and after.
      have hnone : (t.row (s.weights key)).filter (fun r => s.key r = key) = none := by
        rw [hindex, Option.filter_eq_none_iff]
        intro old hold
        rw [decide_eq_true_eq, hdistinct old hold]
        exact Ne.symm hne
      rw [hnone, hindex, Function.update_self, Option.filter_eq_none_iff]
      intro r hr
      rw [decide_eq_true_eq, ← Option.some.inj hr, hwritten]
      exact Ne.symm hne
    · rw [Function.update_of_ne hindex]

/-- **When a row is stored as given**: exactly if it leaves no column `NULL` that cannot be, gives no
`null` to a column of one of the types that are cast and to no column what it cannot hold, and no
other row has a primary key of the same weights. -/
theorem upsert_round_trip_iff (js : Conversions J) (t : Store s) (item : Item s) :
    RoundTrips js t item ↔
      item.Complete ∧ item.NullsKept ∧ item.Fits js ∧ item.Distinct js t :=
  ⟨RoundTrips.conditions, fun ⟨hcomplete, hnull, hfits, hdistinct⟩ =>
    hcomplete.roundTrips hnull hfits hdistinct⟩

/-- A column `varchar(n)`: longer texts are refused. -/
def varchar {J : Type} (n : ℕ) : Cell J → Option (Cell J)
  | .value (.string text) => if text.length ≤ n then some (.value (.string text)) else none
  | cell => some cell

/-- Texts are compared without regard to case. -/
def foldCase {J : Type} : Cell J → Cell J
  | .value (.string text) => .value (.string text.toLower)
  | cell => cell

/-- Two columns of the table of positions. -/
inductive PositionColumn
  | tokenId
  | owner
  deriving DecidableEq

/-- The table of positions, as far as a burnt position is written. -/
def positionSchema : Schema PositionColumn Empty where
  columns := [.tokenId, .owner]
  type _ := .string
  notNull
    | .tokenId => true
    | .owner => false
  primaryKey := [.tokenId]
  fill _ := .null
  holds _ := varchar 255
  weight _ := foldCase
  primaryKey_subset := by simp
  primaryKey_notNull := by simp
  holds_null _ := rfl
  holds_isNull _ x y h := by
    unfold varchar at h
    split at h
    · split at h
      · rw [← Option.some.inj h]
      · exact absurd h (by simp)
    · rw [← Option.some.inj h]
  holds_holds _ x y h := by
    unfold varchar at h
    split at h
    · split at h
      · rename_i hlength
        rw [← Option.some.inj h]
        exact if_pos hlength
      · exact absurd h (by simp)
    · rename_i hcell
      rw [← Option.some.inj h]
      unfold varchar
      split
      · exact absurd rfl (hcell _)
      · rfl
  holds_fill _ := rfl

/-- The row that `burn` writes: the owner is taken away. -/
def burntPosition : Item positionSchema where
  cells
    | .tokenId => some (.string "7")
    | .owner => some .null
  typed c v h := by
    cases c with
    | tokenId => exact .inr (.inr (Option.some.inj h ▸ trivial))
    | owner => exact .inr (.inl (Option.some.inj h).symm)

/-- Conversions that are not asked. -/
def noConversions : Conversions Empty :=
  ⟨fun _ => none, fun _ => none, fun _ => "NaN", fun j => j.elim, fun _ => "null"⟩

/-- The empty table. -/
def noPositions : Store positionSchema := ⟨fun _ => none, by simp, by simp, by simp⟩

/-- The owner of a burnt position is the text `"null"`. -/
theorem burnt_position_owner :
    ((upsert noConversions noPositions [burntPosition.cells]).toOption.bind fun t =>
        (t.row [.value (.string "7")]).map fun r => r .owner) = some (.value (.string "null")) ∧
      ¬ RoundTrips noConversions noPositions burntPosition := by
  refine ⟨by decide +kernel, fun h => ?_⟩
  exact absurd (h.conditions.2.1 .owner (by simp [positionSchema]) rfl) (by decide)

end RoundTrip

end Upsert

end SwaptoshiService
