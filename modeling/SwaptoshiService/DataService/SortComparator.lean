import Mathlib.Data.String.Basic
import SwaptoshiService.Framework.Difference
import SwaptoshiService.Lib.Sorting

/-!
# Sorting the rows of an answer

`sortComparator` compares two rows by a property, as numbers or as texts. Which of the two it is
depends on **the first row alone**, so a text that is a number before one that is none gives `NaN`.

`sort_iff` says for which rows the comparator is an order whose result does not depend on how the
rows were given: all values are texts that are no numbers, or all are finite numbers and no two
different ones are read as the same number.
-/

namespace SwaptoshiService

namespace SortComparator

/-- The value of a property. -/
inductive PropValue
  | string (s : String)
  | number (x : {x : Option JsNumber // IsNumber x})

/-- A row of an answer; a property that it does not have is `undefined`. -/
abbrev Row := String → Option PropValue

/-- `Number(value)` -/
def toNumber : Option PropValue → Option JsNumber
  | some (.string s) => numberOf s.toList
  | some (.number x) => x.1
  | none => none

/-- `String(value)` -/
def toText : Option PropValue → String
  | some (.string s) => s
  | some (.number x) => numberText x.1
  | none => "undefined"

/-- `[sortProp, sortOrder] = sortParam.split(':')`, of which this is the property. -/
def sortProp (sortParam : String) : String :=
  String.ofList ((sortParam.toList.splitOn ':').headD [])

/-- And this is the order. -/
def sortOrder (sortParam : String) : Option String :=
  (sortParam.toList.splitOn ':')[1]?.map String.ofList

/-- What a comparison gives: nothing if it throws, and a number that may be `NaN`. -/
abbrev Comparison := Option (Option JsNumber)

section Comparator

variable (localeCompare : String → String → ℤ)

/-- `x.localeCompare(y)`, which only texts have. -/
def compareTexts : Option PropValue → Option PropValue → Comparison
  | some (.string s), y => some (some (JsNumber.ofRat (localeCompare s (toText y))))
  | _, _ => none

def sortComparator (sortParam : String) (a b : Row) : Comparison :=
  let x := a (sortProp sortParam)
  let y := b (sortProp sortParam)
  if toNumber x = none then
    -- What is thrown here is caught, and texts are compared.
    if sortOrder sortParam = some "asc" then compareTexts localeCompare x y
    else compareTexts localeCompare y x
  else
    if sortOrder sortParam = some "asc" then some (subtract (toNumber x) (toNumber y))
    else some (subtract (toNumber y) (toNumber x))

end Comparator

/-- The order of two rows for `sort`, which takes `NaN` for zero. -/
def notAfter (comparison : Comparison) : Bool :=
  match comparison with
  | some (some z) => decide (z ≤ JsNumber.ofRat 0)
  | _ => true

/-- `rows.sort(comparator)`, where no comparison throws. -/
def sort (comparator : Row → Row → Comparison) (rows : List Row) : List Row :=
  rows.mergeSort fun a b => notAfter (comparator a b)

/-- The comparison of texts is a total order. -/
structure IsCollation (localeCompare : String → String → ℤ) : Prop where
  antisymm : ∀ s t, localeCompare s t ≤ 0 ↔ 0 ≤ localeCompare t s
  eq_zero : ∀ s t, localeCompare s t = 0 → s = t
  trans : ∀ s t u, localeCompare s t ≤ 0 → localeCompare t u ≤ 0 → localeCompare s u ≤ 0

/-- A consistent comparator: it gives numbers, opposite ones for opposite comparisons, and is
transitive. -/
structure IsConsistent (comparator : Row → Row → Comparison) (rows : List Row) : Prop where
  number : ∀ a ∈ rows, ∀ b ∈ rows, ∃ z, comparator a b = some (some z)
  antisymm : ∀ a ∈ rows, ∀ b ∈ rows, ∀ y z, comparator a b = some (some y) →
    comparator b a = some (some z) → (y ≤ JsNumber.ofRat 0 ↔ JsNumber.ofRat 0 ≤ z)
  trans : ∀ a ∈ rows, ∀ b ∈ rows, ∀ c ∈ rows, ∀ x y z, comparator a b = some (some x) →
    comparator b c = some (some y) → comparator a c = some (some z) →
    x ≤ JsNumber.ofRat 0 → y ≤ JsNumber.ofRat 0 → z ≤ JsNumber.ofRat 0

/-- Sorting gives the same values of the property, however the rows were given. -/
def SameSequence (comparator : Row → Row → Comparison) (prop : String) (rows : List Row) : Prop :=
  ∀ rows' : List Row, rows'.Perm rows →
    (sort comparator rows').map (· prop) = (sort comparator rows).map (· prop)

/-! ### Comparing by a key -/

section Key

variable {β : Type} {comparator : Row → Row → Comparison} {rows : List Row} {r : β → β → Bool}
  {key : Row → β}

/-- The comparator compares keys. -/
def ComparesBy (comparator : Row → Row → Comparison) (r : β → β → Bool) (key : Row → β)
    (rows : List Row) : Prop :=
  ∀ a ∈ rows, ∀ b ∈ rows, ∃ z, comparator a b = some (some z) ∧
    (z ≤ JsNumber.ofRat 0 ↔ r (key a) (key b) = true) ∧
    (JsNumber.ofRat 0 ≤ z ↔ r (key b) (key a) = true)

theorem ComparesBy.isConsistent (hr : IsTotalLe r) (h : ComparesBy comparator r key rows) :
    IsConsistent comparator rows where
  number a ha b hb := by
    obtain ⟨z, hz, -⟩ := h a ha b hb
    exact ⟨z, hz⟩
  antisymm a ha b hb y z hy hz := by
    obtain ⟨y', hy', hle, -⟩ := h a ha b hb
    obtain ⟨z', hz', -, hge⟩ := h b hb a ha
    obtain rfl := Option.some.inj (Option.some.inj (hy.symm.trans hy'))
    obtain rfl := Option.some.inj (Option.some.inj (hz.symm.trans hz'))
    rw [hle, hge]
  trans a ha b hb c hc x y z hx hy hz hab hbc := by
    obtain ⟨x', hx', hle, -⟩ := h a ha b hb
    obtain ⟨y', hy', hle', -⟩ := h b hb c hc
    obtain ⟨z', hz', hle'', -⟩ := h a ha c hc
    obtain rfl := Option.some.inj (Option.some.inj (hx.symm.trans hx'))
    obtain rfl := Option.some.inj (Option.some.inj (hy.symm.trans hy'))
    obtain rfl := Option.some.inj (Option.some.inj (hz.symm.trans hz'))
    exact hle''.mpr (hr.trans _ _ _ (hle.mp hab) (hle'.mp hbc))

theorem ComparesBy.sortsBy (h : ComparesBy comparator r key rows) :
    SortsBy (fun a b => notAfter (comparator a b)) r key rows := by
  intro a ha b hb
  obtain ⟨z, hz, hle, -⟩ := h a ha b hb
  simp only [hz, notAfter]
  rw [Bool.eq_iff_iff, decide_eq_true_iff, hle]

/-- The order of the keys, or the opposite one. -/
def directed (sortParam : String) (r : β → β → Bool) : β → β → Bool :=
  if sortOrder sortParam = some "asc" then r else fun x y => r y x

theorem isTotalLe_directed (sortParam : String) (hr : IsTotalLe r) :
    IsTotalLe (directed sortParam r) := by
  rw [directed]
  split_ifs
  · exact hr
  · exact hr.flip

theorem ComparesBy.directed {ascending : Row → Row → Comparison} {sortParam : String}
    (h : ComparesBy ascending r key rows)
    (heq : ∀ a ∈ rows, ∀ b ∈ rows, comparator a b =
      if sortOrder sortParam = some "asc" then ascending a b else ascending b a) :
    ComparesBy comparator (directed sortParam r) key rows := by
  intro a ha b hb
  rw [heq a ha b hb, SortComparator.directed]
  split_ifs
  · exact h a ha b hb
  · obtain ⟨z, hz, hle, hge⟩ := h b hb a ha
    exact ⟨z, hz, hle, hge⟩

/-- A comparison by what a key says of the values: the sequence is the same if the values have
different keys. -/
theorem ComparesBy.sameSequence_iff [DecidableEq β] {prop : String} {g : Option PropValue → β}
    (hr : IsTotalLe r) (h : ComparesBy comparator r (fun a => g (a prop)) rows) :
    SameSequence comparator prop rows ↔
      ∀ a ∈ rows, ∀ b ∈ rows, g (a prop) = g (b prop) → a prop = b prop :=
  map_mergeSort_perm_iff (f := fun a : Row => a prop) (g := g) hr h.sortsBy

end Key

/-! ### Texts and numbers -/

section Values

variable {localeCompare : String → String → ℤ} {prop order sortParam : String} {rows : List Row}

theorem isTotalLe_localeCompare (h : IsCollation localeCompare) :
    IsTotalLe fun s t => decide (localeCompare s t ≤ 0) where
  trans s t u hst htu := decide_eq_true (h.trans s t u (of_decide_eq_true hst)
    (of_decide_eq_true htu))
  total s t := by
    rw [Bool.or_eq_true, decide_eq_true_iff, decide_eq_true_iff, h.antisymm t s]
    exact le_total _ _
  antisymm s t hst hts := by
    refine h.eq_zero s t (le_antisymm (of_decide_eq_true hst) ?_)
    exact (h.antisymm t s).mp (of_decide_eq_true hts)

/-- All values are texts that are no numbers. -/
def AllTexts (prop : String) (rows : List Row) : Prop :=
  ∀ a ∈ rows, ∃ s, a prop = some (.string s) ∧ numberOf s.toList = none

/-- All values are finite numbers, or texts of such. -/
def AllFinite (prop : String) (rows : List Row) : Prop :=
  ∀ a ∈ rows, ∃ q, toNumber (a prop) = some (JsNumber.ofRat q)

theorem comparesBy_text (hlocale : IsCollation localeCompare)
    (h : AllTexts (sortProp sortParam) rows) :
    ComparesBy (sortComparator localeCompare sortParam)
      (directed sortParam fun s t => decide (localeCompare s t ≤ 0))
      (fun a => toText (a (sortProp sortParam))) rows := by
  have hascending : ComparesBy (fun a b => compareTexts localeCompare (a (sortProp sortParam))
      (b (sortProp sortParam))) (fun s t => decide (localeCompare s t ≤ 0))
        (fun a => toText (a (sortProp sortParam))) rows := by
    intro a ha b hb
    obtain ⟨s, hs, -⟩ := h a ha
    obtain ⟨t, ht, -⟩ := h b hb
    have hcompare : compareTexts localeCompare (a (sortProp sortParam)) (b (sortProp sortParam)) =
        some (some (JsNumber.ofRat (localeCompare s t))) := by
      rw [hs, ht]
      rfl
    refine ⟨_, hcompare, ?_, ?_⟩
    · simp only [hs, ht, toText, JsNumber.ofRat_le, Int.cast_nonpos, decide_eq_true_eq]
    · simp only [hs, ht, toText, JsNumber.ofRat_le, Int.cast_nonneg_iff, decide_eq_true_eq]
      exact (hlocale.antisymm t s).symm
  refine hascending.directed fun a ha b hb => ?_
  obtain ⟨s, hs, hnone⟩ := h a ha
  have hnumber : toNumber (a (sortProp sortParam)) = none := by rwa [hs]
  exact if_pos hnumber

theorem isMultiple_toNumber {v : Option PropValue} {q : ℚ}
    (h : toNumber v = some (JsNumber.ofRat q)) : IsMultiple q := by
  match v, h with
  | some (.string s), h => exact isMultiple_of_numberOf h
  | some (.number x), h => exact isMultiple_of_nearestDouble (x.2 q h)

/-- The number of a value that is finite. -/
def finiteNumber (v : Option PropValue) : ℚ := ((toNumber v).getD ⊤).toRat

theorem comparesBy_number (localeCompare : String → String → ℤ)
    (h : AllFinite (sortProp sortParam) rows) :
    ComparesBy (sortComparator localeCompare sortParam)
      (directed sortParam fun p q => decide (p ≤ q))
      (fun a => finiteNumber (a (sortProp sortParam))) rows := by
  have hascending : ComparesBy (fun a b => some (subtract (toNumber (a (sortProp sortParam)))
      (toNumber (b (sortProp sortParam))))) (fun p q => decide (p ≤ q))
        (fun a => finiteNumber (a (sortProp sortParam))) rows := by
    intro a ha b hb
    obtain ⟨p, hp⟩ := h a ha
    obtain ⟨q, hq⟩ := h b hb
    obtain ⟨z, hz, hle, hge⟩ := subtract_ofRat (isMultiple_toNumber hp) (isMultiple_toNumber hq)
    rw [← hp, ← hq] at hz
    refine ⟨z, congrArg some hz, ?_, ?_⟩
    · simpa [finiteNumber, hp, hq] using hle
    · simpa [finiteNumber, hp, hq] using hge
  refine hascending.directed fun a ha b hb => ?_
  obtain ⟨p, hp⟩ := h a ha
  have hnumber : toNumber (a (sortProp sortParam)) ≠ none := by rw [hp]; nofun
  exact if_neg hnumber

/-- **A consistent comparator has seen one kind of values**: a number before a text that is none
gives `NaN`, and so does an infinite number before itself. -/
theorem allTexts_or_allFinite (hvalues : (∀ a ∈ rows, ∃ s, a (sortProp sortParam) =
      some (.string s)) ∨ ∀ a ∈ rows, ∃ x, a (sortProp sortParam) = some (.number x))
    (h : IsConsistent (sortComparator localeCompare sortParam) rows) :
    AllTexts (sortProp sortParam) rows ∨ AllFinite (sortProp sortParam) rows := by
  by_cases hall : ∀ a ∈ rows, toNumber (a (sortProp sortParam)) ≠ none
  · -- The difference of every number with itself is a number.
    right
    intro a ha
    obtain ⟨z, hz⟩ := h.number a ha a ha
    obtain ⟨x, hx⟩ := Option.ne_none_iff_exists'.mp (hall a ha)
    have hself : subtract (some x) (some x) = some z := by
      simpa [sortComparator, hx] using hz
    obtain ⟨q, rfl⟩ := exists_ofRat_of_subtract_self hself
    exact ⟨q, hx⟩
  · -- There is a text that is no number, so no row before it may have a number.
    left
    push Not at hall
    obtain ⟨a, ha, hnone⟩ := hall
    rcases hvalues with hstrings | hnumbers
    · intro b hb
      obtain ⟨s, hs⟩ := hstrings b hb
      refine ⟨s, hs, ?_⟩
      by_contra hsome
      have hnumber : toNumber (b (sortProp sortParam)) ≠ none := by rwa [hs]
      obtain ⟨z, hz⟩ := h.number b hb a ha
      simp [sortComparator, hnumber, hnone] at hz
    · obtain ⟨x, hx⟩ := hnumbers a ha
      obtain ⟨z, hz⟩ := h.number a ha a ha
      rw [hx] at hnone
      simp [sortComparator, hx, hnone, compareTexts] at hz

theorem consistent_iff (hlocale : IsCollation localeCompare)
    (hvalues : (∀ a ∈ rows, ∃ s, a (sortProp sortParam) = some (.string s)) ∨
      ∀ a ∈ rows, ∃ x, a (sortProp sortParam) = some (.number x)) :
    (IsConsistent (sortComparator localeCompare sortParam) rows ∧
        SameSequence (sortComparator localeCompare sortParam) (sortProp sortParam) rows) ↔
      AllTexts (sortProp sortParam) rows ∨ (AllFinite (sortProp sortParam) rows ∧
        ∀ a ∈ rows, ∀ b ∈ rows, toNumber (a (sortProp sortParam)) =
          toNumber (b (sortProp sortParam)) → a (sortProp sortParam) = b (sortProp sortParam)) := by
  have htext := isTotalLe_directed sortParam (isTotalLe_localeCompare hlocale)
  have hnumber : IsTotalLe (directed sortParam fun p q : ℚ => decide (p ≤ q)) :=
    isTotalLe_directed sortParam isTotalLe_le
  -- Finite numbers are equal if their values are.
  have hfinite : AllFinite (sortProp sortParam) rows → ∀ a ∈ rows, ∀ b ∈ rows,
      (finiteNumber (a (sortProp sortParam)) = finiteNumber (b (sortProp sortParam)) ↔
        toNumber (a (sortProp sortParam)) = toNumber (b (sortProp sortParam))) := by
    intro h a ha b hb
    obtain ⟨p, hp⟩ := h a ha
    obtain ⟨q, hq⟩ := h b hb
    simp only [finiteNumber, hp, hq, Option.getD_some, JsNumber.toRat_ofRat]
    exact ⟨fun h => h ▸ rfl, fun h => congrArg JsNumber.toRat (Option.some.inj h)⟩
  constructor
  · rintro ⟨hconsistent, hsame⟩
    rcases allTexts_or_allFinite hvalues hconsistent with hall | hall
    · exact .inl hall
    · refine .inr ⟨hall, fun a ha b hb heq => ?_⟩
      exact ((comparesBy_number localeCompare hall).sameSequence_iff hnumber).mp hsame a ha b hb
        ((hfinite hall a ha b hb).mpr heq)
  · rintro (hall | ⟨hall, hdistinct⟩)
    · have hcompares := comparesBy_text hlocale hall
      refine ⟨hcompares.isConsistent htext, (hcompares.sameSequence_iff htext).mpr ?_⟩
      intro a ha b hb heq
      obtain ⟨s, hs, -⟩ := hall a ha
      obtain ⟨t, ht, -⟩ := hall b hb
      rw [hs, ht] at heq ⊢
      exact congrArg (fun s => some (PropValue.string s)) heq
    · have hcompares := comparesBy_number localeCompare hall
      refine ⟨hcompares.isConsistent hnumber, (hcompares.sameSequence_iff hnumber).mpr ?_⟩
      exact fun a ha b hb heq => hdistinct a ha b hb ((hfinite hall a ha b hb).mp heq)

theorem sortProp_append (h : ':' ∉ prop.toList) : sortProp (prop ++ ":" ++ order) = prop := by
  have htext : (prop ++ ":" ++ order).toList = prop.toList ++ ':' :: order.toList := by simp
  rw [sortProp, htext, List.splitOn_append_cons_self_of_not_mem h, List.headD_cons,
    String.ofList_toList]

end Values

/-- **When sorting is well defined**: all values are texts that are no numbers, or all are finite
numbers of which no two different ones are read as the same number. -/
theorem sort_iff {localeCompare : String → String → ℤ} (hlocale : IsCollation localeCompare)
    {prop : String} (hprop : ':' ∉ prop.toList) (order : String) {rows : List Row}
    (hvalues : (∀ a ∈ rows, ∃ s, a prop = some (.string s)) ∨
      ∀ a ∈ rows, ∃ x, a prop = some (.number x)) :
    (IsConsistent (sortComparator localeCompare (prop ++ ":" ++ order)) rows ∧
        SameSequence (sortComparator localeCompare (prop ++ ":" ++ order)) prop rows) ↔
      AllTexts prop rows ∨ (AllFinite prop rows ∧ ∀ a ∈ rows, ∀ b ∈ rows,
        toNumber (a prop) = toNumber (b prop) → a prop = b prop) := by
  have hsort : sortProp (prop ++ ":" ++ order) = prop := sortProp_append hprop
  nth_rewrite 1 2 [← hsort] at hvalues
  have hiff := consistent_iff hlocale hvalues
  rwa [hsort] at hiff

/-- The comparison by code points. -/
def compareCodePoints (s t : String) : ℤ := if s < t then -1 else if s = t then 0 else 1

theorem compareCodePoints_nonpos {s t : String} : compareCodePoints s t ≤ 0 ↔ s ≤ t := by
  rw [compareCodePoints]
  rcases lt_trichotomy s t with hlt | rfl | hlt
  · simp [hlt, hlt.le]
  · simp
  · simp [hlt, hlt.ne', hlt.not_gt]

theorem isCollation_compareCodePoints : IsCollation compareCodePoints where
  antisymm s t := by
    rw [compareCodePoints_nonpos, compareCodePoints]
    rcases lt_trichotomy s t with hlt | rfl | hlt
    · simp [hlt.le, hlt.not_gt, hlt.ne']
    · simp
    · simp [hlt]
  eq_zero s t h := by
    rw [compareCodePoints] at h
    split_ifs at h with hlt heq
    · exact heq
    · omega
  trans s t u hst htu := by
    rw [compareCodePoints_nonpos] at *
    exact hst.trans htu

/-- A validator with a name. -/
def named (name : String) : Row := fun prop => if prop = "name" then some (.string name) else none

/-- Names of letters are sorted. -/
theorem sort_names :
    IsConsistent (sortComparator compareCodePoints "name:asc") [named "bob", named "alice"] := by
  have hprop : ':' ∉ "name".toList := by decide
  refine ((sort_iff isCollation_compareCodePoints hprop "asc" (.inl ?_)).mpr (.inl ?_)).1
  · intro a ha
    simp only [List.mem_cons, List.not_mem_nil, or_false] at ha
    rcases ha with rfl | rfl
    · exact ⟨"bob", rfl⟩
    · exact ⟨"alice", rfl⟩
  · intro a ha
    simp only [List.mem_cons, List.not_mem_nil, or_false] at ha
    rcases ha with rfl | rfl
    · exact ⟨"bob", rfl, by decide⟩
    · exact ⟨"alice", rfl, by decide⟩

/-- A validator with a weight, which is a text. -/
def weighted (validatorWeight : String) : Row := fun prop =>
  if prop = "validatorWeight" then some (.string validatorWeight) else none

/-- A name that is a number, before one that is none, gives `NaN`. And two weights that are read as
one number stay in the order in which they are given. -/
theorem names_compare_nan_weights_tie :
    sortComparator compareCodePoints "name:asc" (named "9") (named "alice") = some none ∧
      ¬ SameSequence (sortComparator compareCodePoints "validatorWeight:desc") "validatorWeight"
        [weighted "9007199254740992", weighted "9007199254740993"] := by
  refine ⟨by decide +kernel, fun h => ?_⟩
  have hnumber : ∀ s ∈ ["9007199254740992", "9007199254740993"],
      toNumber (weighted s "validatorWeight") = some (JsNumber.ofRat (2 ^ 53)) := by decide +kernel
  have hprop : sortProp "validatorWeight:desc" = "validatorWeight" := by decide +kernel
  have hfinite : AllFinite (sortProp "validatorWeight:desc")
      (["9007199254740992", "9007199254740993"].map weighted) := by
    intro a ha
    obtain ⟨s, hs, rfl⟩ := List.mem_map.mp ha
    exact ⟨2 ^ 53, hprop ▸ hnumber s hs⟩
  have hcompares := comparesBy_number compareCodePoints hfinite
  rw [hprop] at hcompares
  have hsame := (hcompares.sameSequence_iff (isTotalLe_directed _ isTotalLe_le)).mp h
    (weighted "9007199254740992") (by simp) (weighted "9007199254740993") (by simp)
    (by rw [finiteNumber, finiteNumber, hnumber _ (by simp), hnumber _ (by simp)])
  simp [weighted] at hsame

end SortComparator

end SwaptoshiService
