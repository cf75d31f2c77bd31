import Mathlib.Data.List.Infix
import SwaptoshiService.Lib.Except
import SwaptoshiService.TransactionStatistics.FetchTransactions

/-!
# Collecting all pages

Four functions collect the pages of a list: `requestAll` of the indexer and `requestAllCustom` of
the export, which ask for no more than is missing but for the first time, and `requestAllStandard`
of the export and `requestAll` of the statistics, which always ask for a whole page. Answers to the
first two may also be objects, which are merged property by property.

None of them cuts what it has collected. So for a limit `m` and pages of `p` elements the first two
answer **a whole page** where `m` is less than that (`collectAll_array`), and the others answer
whole pages always. `collected_iff` says for which lists and limits all four answer the first `m`
elements.
-/

namespace SwaptoshiService

namespace RequestAll

open FetchTransactions

variable {α : Type}

/-! ### Answers -/

/-- A property of an answer; `none` is `undefined`. -/
inductive PropValue (α : Type)
  | array (elements : List α)
  | object (entries : List (String × α))
  | other (value : Option α)
deriving DecidableEq

/-- An answer; `missing` is `undefined` or `null`, and `error` an object with an error. -/
inductive Response (α : Type)
  | missing
  | error (message : String)
  | array (elements : List α)
  | object (props : List (String × PropValue α))
deriving DecidableEq

/-- `!result || Utils.isEmptyArray(result) || Utils.isEmptyObject(result)`. -/
def Response.isEmpty : Response α → Bool
  | .missing => true
  | .error _ => false
  | .array elements => elements.isEmpty
  | .object props => props.isEmpty

/-- `result[dataKey]`. -/
def Response.prop (result : Response α) (dataKey : String) : Option (PropValue α) :=
  match result with
  | .object props => props.lookup dataKey
  | _ => none

/-- `{ ...entries, ...entries' }`. -/
def spread (entries entries' : List (String × α)) : List (String × α) :=
  (entries.map fun e => (e.1, (entries'.lookup e.1).getD e.2)) ++
    entries'.filter fun e => (entries.lookup e.1).isNone

/-- `push(...value)` of a value that is no array. -/
def notIterable : String := "Spread syntax requires ...iterable[Symbol.iterator] to be a function"

/-- A property of the answers so far, and that of one more. -/
def mergeProp (dataVal : PropValue α) (value : Option (PropValue α)) :
    Except String (PropValue α) :=
  match dataVal, value with
  | .array elements, some (.array elements') => pure (.array (elements ++ elements'))
  | .array _, _ => throw notIterable
  | .object entries, some (.object entries') => pure (.object (spread entries entries'))
  | .object entries, _ => pure (.object entries)
  | .other _, value => pure (value.getD (.other none))

/-- The answers so far, and one more. -/
def merge (totalResponse result : Response α) : Except String (Response α) :=
  match totalResponse, result with
  | .array elements, .array elements' => pure (.array (elements ++ elements'))
  | .array _, _ => throw notIterable
  | .object props, result => do
    let props ← props.mapM fun e => do
      let value ← mergeProp e.2 (result.prop e.1)
      pure (e.1, value)
    pure (.object props)
  | totalResponse, _ => pure totalResponse

/-! ### Collecting -/

/-- The pages from `page` on, `n` of them at most. -/
def laterPages (fn : ℕ → ℕ → Except String (Response α)) (oneRequestLimit maxAmount : ℕ) :
    ℕ → ℕ → Response α → Except String (Response α)
  | _, 0, totalResponse => pure totalResponse
  | page, n + 1, totalResponse => do
    let curOffset := oneRequestLimit * page
    let result ← fn (min oneRequestLimit (maxAmount - curOffset)) curOffset
    if result.isEmpty then pure totalResponse
    else do
      let totalResponse ← merge totalResponse result
      laterPages fn oneRequestLimit maxAmount (page + 1) n totalResponse

/-- `Number.MAX_SAFE_INTEGER`. -/
def maxSafeInteger : ℕ := 9007199254740991

/-- What `requestAll` and `requestAllCustom` share; they differ in what they do without a first
answer. -/
def collectAll (noAnswer : Except String (Response α))
    (fn : ℕ → ℕ → Except String (Response α)) (paramsLimit limit : Option ℕ) :
    Except String (Response α) := do
  let maxAmount := orElse limit maxSafeInteger
  let oneRequestLimit := orElse paramsLimit 100
  let firstRequest ← fn oneRequestLimit 0
  match firstRequest with
  | .missing => noAnswer
  | .error message => pure (.error message)
  | totalResponse =>
    if oneRequestLimit < maxAmount then
      laterPages fn oneRequestLimit maxAmount 1 (numBatches maxAmount oneRequestLimit - 1)
        totalResponse
    else pure totalResponse

/-- `requestAll(fn, method, params, limit)` of the indexer. -/
def requestAll (fn : ℕ → ℕ → Except String (Response α)) (paramsLimit limit : Option ℕ) :
    Except String (Response α) :=
  collectAll (throw "Cannot read properties of undefined (reading 'error')") fn paramsLimit limit

/-- `requestAllCustom(fn, method, params, limit)` of the export. -/
def requestAllCustom (fn : ℕ → ℕ → Except String (Response α)) (paramsLimit limit : Option ℕ) :
    Except String (Response α) :=
  collectAll (pure .missing) fn paramsLimit limit

/-- `requestAllStandard(fn, params, limit)` of the export; the result is an error if the first
answer is one. -/
def requestAllStandard (fn : ℕ → ℕ → Except String (Answer α)) (paramsLimit limit : Option ℕ) :
    Except String (Except String (List α)) := do
  let defaultMaxAmount := orElse limit 1000
  let oneRequestLimit := orElse paramsLimit 100
  let firstRequest ← fn oneRequestLimit 0
  match firstRequest.data, firstRequest.info with
  | .error e, none =>
    if "Not found".toList <:+: e.toList then pure (.ok [])
    else throw "Cannot read properties of undefined (reading 'total')"
  | .ok _, none => throw "Cannot read properties of undefined (reading 'total')"
  | data, some info =>
    let maxAmount := maxAmount info.total defaultMaxAmount
    let pages : Except String (List α) :=
      if oneRequestLimit < maxAmount then
        requestPages fn oneRequestLimit 1 (numBatches maxAmount oneRequestLimit - 1)
      else pure []
    match data with
    | .ok data => do
      let rest ← pages
      pure (.ok (data ++ rest))
    | .error e =>
      if "Not found".toList <:+: e.toList then pure (.ok [])
      else do
        let rest ← pages
        -- An error has no `push`.
        if rest.isEmpty then pure (.error e) else throw "data.push is not a function"

/-! ### Lists that are asked for -/

/-- The elements from `offset` on, `limit` of them at most. -/
def slice (l : List α) (limit offset : ℕ) : List α := (l.drop offset).take limit

/-- An indexer that answers from a list. -/
def arrayServer (l : List α) (limit offset : ℕ) : Except String (Response α) :=
  .ok (.array (slice l limit offset))

/-- An object with a list for each property. -/
def objectOf (props : List (String × List α)) (f : List α → List α) : Response α :=
  .object (props.map fun e => (e.1, .array (f e.2)))

/-- An indexer that answers from the lists of an object. -/
def objectServer (props : List (String × List α)) (limit offset : ℕ) :
    Except String (Response α) :=
  .ok (objectOf props fun l => slice l limit offset)

/-- An indexer that also answers how many elements there are. -/
def totalServer (l : List α) (limit offset : ℕ) : Except String (Answer α) :=
  .ok (answerOf l limit offset)

theorem orElse_some {n fallback : ℕ} (h : 0 < n) : orElse (some n) fallback = n := by
  obtain ⟨n, rfl⟩ := Nat.exists_eq_succ_of_ne_zero h.ne'
  rfl

section Collect

variable {l : List α} {props : List (String × List α)} {p m : ℕ}

/-- **All pages together**: what is there up to an offset, and the next answer, is what is there up
to the end of the answer. -/
theorem laterPages_eq {fn : ℕ → ℕ → Except String (Response α)}
    {answer : ℕ → ℕ → Response α} {upTo : ℕ → Response α}
    (hfn : ∀ limit offset, fn limit offset = .ok (answer limit offset))
    (hempty : ∀ limit offset, 0 < limit → (answer limit offset).isEmpty = true →
      ∀ n, offset ≤ n → upTo n = upTo offset)
    (hmerge : ∀ limit offset, merge (upTo offset) (answer limit offset) =
      .ok (upTo (offset + limit))) (hp : 0 < p) :
    ∀ n page, page + n = numBatches m p →
      laterPages fn p m page n (upTo (min m (p * page))) = .ok (upTo m) := by
  intro n
  induction n with
  | zero =>
    intro page hpage
    have hle : m ≤ p * page := by
      rw [Nat.mul_comm, ← Nat.add_zero page, hpage]
      exact le_numBatches_mul hp
    rw [laterPages, Nat.min_eq_left hle]
    rfl
  | succ n ih =>
    intro page hpage
    have hlt : p * page < m := by
      rw [Nat.mul_comm]
      exact (lt_numBatches_iff hp).mp (by omega)
    rw [laterPages, hfn, Nat.min_eq_right hlt.le]
    simp only [bind, Except.bind]
    split_ifs with hend
    · exact congrArg Except.ok (hempty _ _ (by omega) hend m hlt.le).symm
    · have hnext : p * page + min p (m - p * page) = min m (p * (page + 1)) := by
        rw [Nat.mul_succ]
        omega
      rw [hmerge, hnext]
      exact ih (page + 1) (by omega)

/-- The first page is asked for with the limit of one request. -/
theorem collectAll_eq (upTo : ℕ → Response α) {fn : ℕ → ℕ → Except String (Response α)}
    {answer : ℕ → ℕ → Response α} {noAnswer : Except String (Response α)}
    (hfn : ∀ limit offset, fn limit offset = .ok (answer limit offset))
    (hempty : ∀ limit offset, 0 < limit → (answer limit offset).isEmpty = true →
      ∀ n, offset ≤ n → upTo n = upTo offset)
    (hmerge : ∀ limit offset, merge (upTo offset) (answer limit offset) =
      .ok (upTo (offset + limit)))
    (hfirst : ∀ limit, answer limit 0 = upTo limit)
    (hkind : ∀ limit, upTo limit ≠ .missing ∧ ∀ message, upTo limit ≠ .error message)
    (hp : 0 < p) (hm : 0 < m) :
    collectAll noAnswer fn (some p) (some m) = .ok (upTo (max p m)) := by
  have hlimit : orElse (some p) 100 = p := orElse_some hp
  have hmax : orElse (some m) maxSafeInteger = m := orElse_some hm
  have hlater : (if p < m then laterPages fn p m 1 (numBatches m p - 1) (upTo p)
      else pure (upTo p)) = .ok (upTo (max p m)) := by
    split_ifs with hlt
    · have hbatches : 1 < numBatches m p := (lt_numBatches_iff hp).mpr (by rwa [one_mul])
      have hpages := laterPages_eq (m := m) hfn hempty hmerge hp (numBatches m p - 1) 1 (by omega)
      rw [Nat.mul_one, Nat.min_eq_right hlt.le] at hpages
      rw [hpages, Nat.max_eq_right hlt.le]
    · rw [Nat.max_eq_left (not_lt.mp hlt)]
      rfl
  obtain ⟨hmissing, herror⟩ := hkind p
  rw [collectAll, hfn, hlimit, hmax, hfirst]
  simp only [bind, Except.bind]
  cases hupTo : upTo p with
  | missing => exact absurd hupTo hmissing
  | error message => exact absurd hupTo (herror message)
  | array elements => exact hupTo ▸ hlater
  | object props => exact hupTo ▸ hlater

theorem take_append_slice (l : List α) (limit offset : ℕ) :
    l.take offset ++ slice l limit offset = l.take (offset + limit) := List.take_add.symm

/-- Of a list whole pages are collected if the limit is less than a page. -/
theorem collectAll_array (noAnswer : Except String (Response α)) (l : List α) (hp : 0 < p)
    (hm : 0 < m) : collectAll noAnswer (arrayServer l) (some p) (some m) =
      .ok (.array (l.take (max p m))) := by
  refine collectAll_eq (fun n => .array (l.take n)) (fun _ _ => rfl) ?_ ?_ ?_ ?_ hp hm
  · intro limit offset hlimit hempty n hn
    -- An empty answer is behind the end of the list.
    have hlength : l.length ≤ offset := by
      simp only [Response.isEmpty, slice, List.isEmpty_iff, List.take_eq_nil_iff,
        List.drop_eq_nil_iff] at hempty
      omega
    rw [List.take_of_length_le hlength, List.take_of_length_le (hlength.trans hn)]
  · intro limit offset
    rw [← take_append_slice]
    rfl
  · intro limit
    rw [slice, List.drop_zero]
  · intro limit
    simp

theorem lookup_map {β : Type} {f : List α → β} (hkeys : (props.map Prod.fst).Nodup)
    {e : String × List α} (he : e ∈ props) :
    (props.map fun e => (e.1, f e.2)).lookup e.1 = some (f e.2) := by
  induction props with
  | nil => exact absurd he List.not_mem_nil
  | cons e' props ih =>
    rw [List.map_cons, List.nodup_cons] at hkeys
    rw [List.map_cons, List.lookup_cons]
    rcases List.mem_cons.mp he with rfl | he
    · simp
    · have hne : (e.1 == e'.1) = false := by
        have hmem : e.1 ∈ props.map Prod.fst := List.mem_map_of_mem he
        exact beq_false_of_ne fun heq => hkeys.1 (heq ▸ hmem)
      rw [hne]
      exact ih hkeys.2 he

/-- So it is with each property of an object. -/
theorem collectAll_object (noAnswer : Except String (Response α))
    (hkeys : (props.map Prod.fst).Nodup) (hp : 0 < p) (hm : 0 < m) :
    collectAll noAnswer (objectServer props) (some p) (some m) =
      .ok (objectOf props (List.take (max p m))) := by
  refine collectAll_eq (fun n => objectOf props (List.take n)) (fun _ _ => rfl) ?_ ?_ ?_ ?_ hp hm
  · intro limit offset hlimit hempty n hn
    -- Only an object without properties is empty.
    have hprops : props = [] := by
      simpa only [Response.isEmpty, objectOf, List.isEmpty_iff, List.map_eq_nil_iff] using hempty
    rw [hprops]
    rfl
  · intro limit offset
    rw [objectOf, merge, List.mapM_map, mapM_eq_ok_map (g := fun e =>
      (e.1, PropValue.array (e.2.take (offset + limit))))]
    · rfl
    · intro e he
      rw [← take_append_slice]
      have hlookup := lookup_map (f := fun l => PropValue.array (slice l limit offset)) hkeys he
      simp only [Function.comp, Response.prop, objectOf, hlookup]
      rfl
  · intro limit
    simp [objectOf, slice]
  · intro limit
    simp [objectOf]

/-- The answers of a list have no errors, so both functions collect the same. -/
theorem requestAllStandard_eq (l : List α) (paramsLimit limit : Option ℕ) :
    requestAllStandard (totalServer l) paramsLimit limit =
      FetchTransactions.requestAll (totalServer l) paramsLimit limit := by
  rw [requestAllStandard, FetchTransactions.requestAll]
  simp only [totalServer, answerOf, bind, Except.bind]
  split_ifs
  · simp
  · simp [pure, Except.pure]

/-! ### What is collected -/

/-- The first elements of a list are as many as they should be. -/
theorem take_eq_take_iff {n : ℕ} (h : m ≤ n) : l.take n = l.take m ↔ l.length ≤ m ∨ n = m := by
  rw [List.take_eq_take_iff]
  omega

theorem collectAll_array_iff (noAnswer : Except String (Response α)) (l : List α) (hp : 0 < p)
    (hm : 0 < m) : collectAll noAnswer (arrayServer l) (some p) (some m) =
      .ok (.array (l.take m)) ↔ l.length ≤ m ∨ p ≤ m := by
  rw [collectAll_array noAnswer l hp hm, Except.ok.injEq, Response.array.injEq,
    take_eq_take_iff (le_max_right p m), max_eq_right_iff]

theorem collectAll_object_iff (noAnswer : Except String (Response α))
    (hkeys : (props.map Prod.fst).Nodup) (hp : 0 < p) (hm : 0 < m) :
    collectAll noAnswer (objectServer props) (some p) (some m) =
      .ok (objectOf props (List.take m)) ↔ (∀ e ∈ props, e.2.length ≤ m) ∨ p ≤ m := by
  rw [collectAll_object noAnswer hkeys hp hm, Except.ok.injEq, objectOf, objectOf,
    Response.object.injEq, List.map_inj_left]
  simp only [Prod.mk.injEq, PropValue.array.injEq, true_and, take_eq_take_iff (le_max_right p m),
    max_eq_right_iff]
  by_cases hle : p ≤ m
  · simp [hle]
  · simp [hle]

/-- Whole pages are as many elements as they should be. -/
theorem requestAll_statistics_iff (l : List α) (hp : 0 < p) (hm : 0 < m) :
    FetchTransactions.requestAll (totalServer l) (some p) (some m) = .ok (.ok (l.take m)) ↔
      l.length ≤ m ∨ p ∣ m := by
  have hserver : ∀ limit offset, totalServer l limit offset = .ok (answerOf l limit offset) :=
    fun _ _ => rfl
  rw [requestAll_eq hserver, orElse_some hp, orElse_some hm, Except.ok.injEq, Except.ok.injEq]
  by_cases hlength : l.length ≤ m
  · refine iff_of_true ?_ (.inl hlength)
    -- All pages are needed, and make up the list.
    rw [List.take_of_length_le hlength]
    refine List.take_of_length_le ?_
    rw [maxAmount]
    split_ifs with hzero
    · omega
    · exact (le_numBatches_mul hp).trans (Nat.mul_le_mul_right p (le_max_right _ _))
  · have hamount : maxAmount (some l.length) m = m := if_pos (.inr (by omega))
    have hpages : 0 < numBatches m p := (lt_numBatches_iff hp).mpr (by omega)
    rw [hamount, Nat.max_eq_right hpages, take_eq_take_iff (le_numBatches_mul hp),
      numBatches_mul_eq_iff hp]

/-- **The first `m` elements are collected**, by each of the four functions. -/
structure Collected (l : List α) (props : List (String × List α)) (p m : ℕ) : Prop where
  requestAll : requestAll (arrayServer l) (some p) (some m) = .ok (.array (l.take m))
  requestAllCustom : requestAllCustom (arrayServer l) (some p) (some m) = .ok (.array (l.take m))
  requestAll_object : RequestAll.requestAll (objectServer props) (some p) (some m) =
    .ok (objectOf props (List.take m))
  requestAllCustom_object : RequestAll.requestAllCustom (objectServer props) (some p) (some m) =
    .ok (objectOf props (List.take m))
  requestAllStandard : requestAllStandard (totalServer l) (some p) (some m) = .ok (.ok (l.take m))
  statistics : FetchTransactions.requestAll (totalServer l) (some p) (some m) =
    .ok (.ok (l.take m))

/-- **When the first elements are collected.** -/
theorem collected_iff (l : List α) (hkeys : (props.map Prod.fst).Nodup) (hp : 0 < p)
    (hm : 0 < m) : Collected l props p m ↔
      (l.length ≤ m ∨ p ∣ m) ∧ ((∀ e ∈ props, e.2.length ≤ m) ∨ p ≤ m) := by
  have hle : p ∣ m → p ≤ m := Nat.le_of_dvd hm
  have hstatistics := requestAll_statistics_iff l hp hm
  constructor
  · intro h
    exact ⟨hstatistics.mp h.statistics,
      (collectAll_object_iff _ hkeys hp hm).mp h.requestAll_object⟩
  · rintro ⟨hlist, hobject⟩
    have harray : l.length ≤ m ∨ p ≤ m := hlist.imp_right hle
    exact ⟨(collectAll_array_iff _ l hp hm).mpr harray, (collectAll_array_iff _ l hp hm).mpr harray,
      (collectAll_object_iff _ hkeys hp hm).mpr hobject,
      (collectAll_object_iff _ hkeys hp hm).mpr hobject,
      (requestAllStandard_eq l _ _).trans (hstatistics.mpr hlist), hstatistics.mpr hlist⟩

/-- Five elements in pages of two, with a limit of four. -/
theorem collected_two_pages :
    ([("stakers", [1, 2, 3]), ("validators", [4])].map Prod.fst).Nodup ∧ 0 < 2 ∧ 0 < 4 ∧
      Collected [1, 2, 3, 4, 5] [("stakers", [1, 2, 3]), ("validators", [4])] 2 4 :=
  ⟨by decide, by decide, by decide,
    (collected_iff [1, 2, 3, 4, 5] (by decide) (by decide) (by decide)).mpr (by decide)⟩

/-- A limit less than a page, and one that is not a number of pages. -/
theorem too_many_collected :
    requestAll (arrayServer [1, 2, 3]) (some 2) (some 1) = .ok (.array [1, 2]) ∧
      ¬ Collected [1, 2, 3] [] 2 1 ∧
      requestAllStandard (totalServer [1, 2, 3, 4, 5]) (some 2) (some 3) =
        .ok (.ok [1, 2, 3, 4]) ∧
      ¬ Collected [1, 2, 3, 4, 5] [] 2 3 := by
  refine ⟨rfl, fun h => ?_, rfl, fun h => ?_⟩
  · exact absurd h.requestAll (by decide)
  · exact absurd h.requestAllStandard (by decide)

end Collect

end RequestAll

end SwaptoshiService
