import Mathlib.Data.List.AList
import SwaptoshiService.Framework.NumericText
import SwaptoshiService.Framework.QueryBuilder

/-!
# Range parameters

A parameter `from:to` is taken out of the parameters by `normalizeRangeParam`
(`shared/utils/param.js`) and becomes an entry of `propBetweens`, of which the query builder makes
two comparisons that **include** both bounds. A range between two integers selects the values from
the one to the other (`all_rangeConds_iff`).
-/

namespace SwaptoshiService

namespace RangeParam

open QueryBuilder

/-- A value in a `params` object: a text, the entries of `propBetweens`, or something else. -/
inductive ParamValue (O : Type)
  | text (s : String)
  | propBetweens (entries : List (PropBetween String JsNumber))
  | other (value : O)

/-- A `params` object. -/
abbrev ParamsObject (O : Type) := AList fun _ : String => ParamValue O

variable {O : Type}

/-- `Array.isArray(params.propBetweens) ? [...params.propBetweens] : []`. -/
def propBetweensOf (params : ParamsObject O) : List (PropBetween String JsNumber) :=
  match params.lookup "propBetweens" with
  | some (.propBetweens entries) => entries
  | _ => []

/-- The entry `{ property, from, to }`. -/
def fromTo (property : String) (lower upper : JsNumber) : PropBetween String JsNumber :=
  { property, fromValue := some (some lower), toValue := some (some upper) }

/-- The entry for a range; a side without a text is left open. -/
def rangeEntry (property : String) (fromStr toStr : List Char) (lower upper : JsNumber) :
    PropBetween String JsNumber :=
  if fromStr = [] then { property, toValue := some (some upper) }
  else if toStr = [] then { property, fromValue := some (some lower) }
  else fromTo property lower upper

/-- `normalizeRangeParam(params, property)`. -/
def normalizeRangeParam (params : ParamsObject O) (property : String) :
    Except String (ParamsObject O) :=
  match params.lookup property with
  | some (.text s) =>
    match s.toList.splitOn ':' with
    | fromStr :: toStr :: _ =>
      match numberOf fromStr, numberOf toStr with
      | some lower, some upper =>
        if fromStr ≠ [] ∧ toStr ≠ [] ∧ upper < lower then
          .error ("From " ++ property ++ " cannot be greater than to " ++ property ++ ".")
        else
          .ok ((params.erase property).insert "propBetweens" (.propBetweens
            (propBetweensOf params ++ [rangeEntry property fromStr toStr lower upper])))
      | _, _ =>
        .error ("Invalid (non-numeric) '" ++ property ++ "' range values supplied: " ++ s ++ ".")
    -- A text without a colon is no range.
    | _ => .ok params
  | _ => .ok params

/-- How numbers are compared. -/
def numberOps : Ops JsNumber where
  eq x y := x = y
  lt x y := x < y
  le x y := x ≤ y
  like _ _ := false

/-- The conditions of the ranges. -/
def rangeConds (params : ParamsObject O) : List (Sql.Cond String JsNumber) :=
  (propBetweensOf params).flatMap (propBetween numberOps)

/-! ### A range between integers -/

section Integers

variable {lower upper : ℤ} {property : String}

/-- The text `lower:upper`. -/
def rangeText (lower upper : ℤ) : String := toString lower ++ ":" ++ toString upper

theorem colon_notMem_toString (n : ℤ) : ∀ c ∈ (toString n).toList, (c == ':') = false := by
  intro c hc
  refine beq_eq_false_iff_ne.mpr ?_
  rintro rfl
  rcases mem_toList_toString hc with h | h
  · exact absurd h (by decide)
  · exact absurd h (by decide)

theorem splitOn_rangeText (lower upper : ℤ) : (rangeText lower upper).toList.splitOn ':' =
    [(toString lower).toList, (toString upper).toList] := by
  have htext : (rangeText lower upper).toList =
      (toString lower).toList ++ ':' :: (toString upper).toList := by
    simp [rangeText]
  rw [htext, List.splitOn_eq_splitOnP,
    List.splitOnP_append_cons_of_forall_mem (colon_notMem_toString lower) ':' (by simp),
    List.splitOnP_eq_singleton (colon_notMem_toString upper)]

/-- The range becomes an entry with both bounds. -/
theorem normalizeRangeParam_rangeText {params : ParamsObject O}
    (hparam : params.lookup property = some (.text (rangeText lower upper)))
    (hle : lower ≤ upper) (hlower : lower.natAbs < 2 ^ 53) (hupper : upper.natAbs < 2 ^ 53) :
    normalizeRangeParam params property = .ok ((params.erase property).insert "propBetweens"
      (.propBetweens (propBetweensOf params ++
        [fromTo property (JsNumber.ofRat lower) (JsNumber.ofRat upper)]))) := by
  have hnot : ¬ JsNumber.ofRat (upper : ℚ) < JsNumber.ofRat (lower : ℚ) := by
    rw [JsNumber.ofRat_lt, Int.cast_lt]
    omega
  rw [normalizeRangeParam, hparam]
  simp only [splitOn_rangeText, numberOf_toString hlower, numberOf_toString hupper]
  rw [if_neg fun h => hnot h.2.2, rangeEntry, if_neg (toList_toString_ne_nil lower),
    if_neg (toList_toString_ne_nil upper)]

/-- **A range includes its bounds.** -/
theorem all_rangeConds_iff {params : ParamsObject O} {row : Sql.Row String JsNumber} {x : ℤ}
    (hparams : propBetweensOf params =
      [fromTo property (JsNumber.ofRat lower) (JsNumber.ofRat upper)])
    (hrow : row property = some (JsNumber.ofRat x)) :
    Sql.All (rangeConds params) row ↔ lower ≤ x ∧ x ≤ upper := by
  simp [Sql.All, rangeConds, hparams, fromTo, propBetween, Sql.compare, hrow, numberOps]

end Integers

end RangeParam

end SwaptoshiService
