import SwaptoshiService.Indexer.Env
import SwaptoshiService.Jobs.CandleMeaning
import SwaptoshiService.Lib.Join
import SwaptoshiService.Lib.Keyed
import SwaptoshiService.Lib.Paging
import SwaptoshiService.Lib.Sorting
import SwaptoshiService.TransactionStatistics.FetchTransactions

/-!
# Series of prices

`getTickPrice` and `getOhlcPrice` (`dataService/dex/methods/price.js`) answer with the latest rows
of a series, from the earliest on. For a price in dollars of a token that is not KLY the rows are
multiplied with those of `klyusd` of the same time: a tick without such a row has no value, a candle
without one is **left out**.

`price_pages`: the pages of a series, the last first, are the series; and the total that is
answered, which is the number of rows of the table, is that of the series if and only if no row is
left out. `converted_candle`: a converted candle encloses the converted prices of its timeframe, and
it is reached by one of them if and only if both pairs are at their extreme at one time.
-/

namespace SwaptoshiService

namespace PriceSeries

open FetchTransactions (orElse)
open Paging

/-! ### Queries -/

/-- `text.toLowerCase()` -/
def toLowerCase (text : String) : String := String.ofList (text.toList.map Char.toLower)

structure PriceParams where
  base : String
  quote : String
  start : Option ℕ
  finish : Option ℕ
  interval : Option ℕ
  limit : Option ℕ
  offset : Option ℕ
  timeframe : String

structure PriceResponse (β : Type) where
  data : List (ℕ × β)
  count : ℕ
  offset : ℕ
  total : ℕ

namespace PriceParams

variable (params : PriceParams)

/-- A price in dollars is that in KLY times the price of KLY. -/
def includeConversion : Bool :=
  toLowerCase params.base ≠ "kly" ∧ toLowerCase params.quote = "usd"

def pair : String :=
  toLowerCase params.base ++ if params.includeConversion then "kly" else toLowerCase params.quote

/-- `AND time >= start AND time <= end`, for bounds that are given and not zero. -/
def between (time : ℕ) : Bool :=
  (params.start.filter (· ≠ 0)).all (· ≤ time) && (params.finish.filter (· ≠ 0)).all (time ≤ ·)

/-- `AND MOD(time, interval) = 0` -/
def onInterval (time : ℕ) : Bool := (params.interval.filter (· ≠ 0)).all (time % · = 0)

end PriceParams

section Queries

variable {β γ : Type}

/-- Rows of the same time. -/
def sameTime (row : ℕ × β) (row' : ℕ × γ) : Bool := row'.1 = row.1

/-- `ORDER BY time DESC LIMIT .. OFFSET ..`, and then `ORDER BY time ASC`. -/
def latestEntries (limit offset : ℕ) (rows : List (ℕ × β)) : List (ℕ × β) :=
  (slice offset limit (rows.mergeSort fun a b => decide (b.1 ≤ a.1))).mergeSort
    fun a b => decide (a.1 ≤ b.1)

def respond (params : PriceParams) (rows : List (ℕ × β)) (total : ℕ) : PriceResponse β :=
  let offset := orElse params.offset 0
  let limit := orElse params.limit 100
  let data := latestEntries limit offset rows
  ⟨data, data.length, offset, total⟩

/-- A product with `NULL` is `NULL`. -/
def times (value : Option ℚ) (value' : Option ℚ) : Option ℚ :=
  value.bind fun v => value'.map (v * ·)

/-- The rows that `getTickPrice` selects. -/
def tickRows (tick : String → List (ℕ × Option ℚ)) (params : PriceParams) :
    List (ℕ × Option ℚ) :=
  let base := (tick params.pair).filter fun row => params.onInterval row.1 && params.between row.1
  if params.includeConversion then
    base.flatMap fun row => (Join.partners sameTime (tick "klyusd") row).map fun quote =>
      (row.1, times row.2 (quote.bind (·.2)))
  else base

/-- `getTickPrice(params)` -/
def getTickPrice (tick : String → List (ℕ × Option ℚ)) (params : PriceParams) :
    PriceResponse (Option ℚ) :=
  respond params (tickRows tick params) (tick params.pair).length

/-- The product of two candles, column by column. -/
def timesRow (row row' : OhlcRow) : OhlcRow :=
  ⟨row.open * row'.open, row.high * row'.high, row.low * row'.low, row.close * row'.close⟩

/-- The rows that `getOhlcPrice` selects. -/
def ohlcRows (ohlc : String → String → List (ℕ × OhlcRow)) (params : PriceParams) :
    List (ℕ × OhlcRow) :=
  let base := (ohlc params.pair params.timeframe).filter fun row => params.between row.1
  if params.includeConversion then
    base.flatMap fun row =>
      ((ohlc "klyusd" params.timeframe).filter (sameTime row)).map fun quote =>
        (row.1, timesRow row.2 quote.2)
  else base

/-- `getOhlcPrice(params)` -/
def getOhlcPrice (ohlc : String → String → List (ℕ × OhlcRow)) (params : PriceParams) :
    Except String (PriceResponse OhlcRow) :=
  if intervalToSecond params.timeframe = none then throw "invalid timeframe"
  else
    pure (respond params (ohlcRows ohlc params) (ohlc params.pair params.timeframe).length)

end Queries

/-! ### Pages of a series -/

section Pages

variable {β : Type} {rows : List (ℕ × β)}

/-- The series, from the earliest row on. -/
def series (rows : List (ℕ × β)) : List (ℕ × β) := rows.mergeSort fun a b => decide (a.1 ≤ b.1)

theorem pairwise_series (rows : List (ℕ × β)) :
    (series rows).Pairwise fun a b => decide (a.1 ≤ b.1) = true :=
  @pairwise_key_mergeSort (ℕ × β) ℕ (fun m n => decide (m ≤ n)) Prod.fst isTotalLe_le rows

/-- Rows of different times have one order. -/
theorem eq_of_perm_of_sorted {r : ℕ → ℕ → Bool} (hr : IsTotalLe r) {l l' : List (ℕ × β)}
    (hperm : l.Perm l') (hnodup : (l.map Prod.fst).Nodup)
    (hl : l.Pairwise fun a b => r a.1 b.1 = true)
    (hl' : l'.Pairwise fun a b => r a.1 b.1 = true) : l = l' := by
  refine List.Perm.eq_of_pairwise (fun a b ha hb hab hba => ?_) hl hl' hperm
  exact List.inj_on_of_nodup_map hnodup ha (hperm.symm.subset hb) (hr.antisymm _ _ hab hba)

/-- From the latest row on it is the series from its end. -/
theorem mergeSort_desc (hnodup : (rows.map Prod.fst).Nodup) :
    rows.mergeSort (fun a b => decide (b.1 ≤ a.1)) = (series rows).reverse := by
  have hle : IsTotalLe fun m n : ℕ => decide (n ≤ m) := isTotalLe_le.flip
  have hdesc : (rows.mergeSort fun a b => decide (b.1 ≤ a.1)).Pairwise
      fun a b => decide (b.1 ≤ a.1) = true :=
    @pairwise_key_mergeSort (ℕ × β) ℕ (fun m n => decide (n ≤ m)) Prod.fst hle rows
  have hperm : (rows.mergeSort fun a b => decide (b.1 ≤ a.1)).Perm (series rows).reverse :=
    (List.mergeSort_perm _ _).trans
      ((List.mergeSort_perm _ _).symm.trans (List.reverse_perm _).symm)
  refine eq_of_perm_of_sorted hle hperm ?_ hdesc (List.pairwise_reverse.mpr (pairwise_series rows))
  exact ((List.mergeSort_perm _ _).map _).nodup_iff.mpr hnodup

/-- A page has the last rows but those of the pages before it. -/
theorem latestEntries_eq (hnodup : (rows.map Prod.fst).Nodup) (limit offset : ℕ) :
    latestEntries limit offset rows = (slice offset limit (series rows).reverse).reverse := by
  rw [latestEntries, mergeSort_desc hnodup]
  have hsub : (slice offset limit (series rows).reverse).Sublist (series rows).reverse :=
    (List.take_sublist _ _).trans (List.drop_sublist _ _)
  have hsorted : (slice offset limit (series rows).reverse).reverse.Pairwise
      fun a b => decide (a.1 ≤ b.1) = true :=
    List.pairwise_reverse.mpr ((List.pairwise_reverse.mpr (pairwise_series rows)).sublist hsub)
  have hkeys : ((series rows).reverse.map Prod.fst).Nodup := by
    rw [List.map_reverse, List.nodup_reverse]
    exact ((List.mergeSort_perm _ _).map _).nodup_iff.mpr hnodup
  refine eq_of_perm_of_sorted isTotalLe_le ?_ ?_ (pairwise_series _) hsorted
  · exact (List.mergeSort_perm _ _).trans (List.reverse_perm _).symm
  · exact ((List.mergeSort_perm _ _).map _).nodup_iff.mpr (hkeys.sublist (hsub.map _))

/-- **The pages of a series, the last first, make it up.** -/
theorem flatMap_latestEntries (hnodup : (rows.map Prod.fst).Nodup) {limit n : ℕ}
    (hn : rows.length ≤ n * limit) :
    (List.range n).reverse.flatMap (fun i => latestEntries limit (i * limit) rows) =
      series rows := by
  have hpages : (List.range n).reverse.flatMap (fun i => latestEntries limit (i * limit) rows) =
      ((List.range n).flatMap fun i => slice (i * limit) limit (series rows).reverse).reverse := by
    rw [List.reverse_flatMap]
    simp only [latestEntries_eq hnodup, Function.comp_def]
  have hlength : (series rows).reverse.length ≤ n * limit := by
    rw [List.length_reverse, series, List.length_mergeSort]
    exact hn
  rw [hpages, flatMap_slice, List.take_of_length_le hlength, List.reverse_reverse]

end Pages

/-! ### Rows of the series -/

section Rows

variable {tick : String → List (ℕ × Option ℚ)} {ohlc : String → String → List (ℕ × OhlcRow)}
  {params : PriceParams}

/-- Rows of a table have different times. -/
def IsTable {β : Type} (rows : List (ℕ × β)) : Prop := (rows.map Prod.fst).Nodup

theorem IsTable.length_sameTime {β γ : Type} {rows : List (ℕ × γ)} (h : IsTable rows)
    (row : ℕ × β) : (rows.filter (sameTime row)).length ≤ 1 := by
  have hfilter := filter_key_of_nodup h row.1
  have heq : rows.filter (sameTime row) = rows.filter fun b => b.1 = row.1 := rfl
  rw [heq, hfilter]
  cases rows.find? fun b => b.1 = row.1 <;> simp

/-- A row with `NULL`s in the place of a row that is not there. -/
theorem IsTable.length_partners {β γ : Type} {rows : List (ℕ × γ)} (h : IsTable rows)
    (row : ℕ × β) : (Join.partners sameTime rows row).length = 1 := by
  have hle := h.length_sameTime row
  rw [Join.partners]
  split_ifs with hempty
  · rfl
  · rw [List.length_map]
    have hpos : (rows.filter (sameTime row)).length ≠ 0 := fun hzero =>
      hempty (List.isEmpty_iff.mpr (List.length_eq_zero_iff.mp hzero))
    omega

/-- Where each row is replaced by one row of its time, the times stay. -/
theorem map_fst_flatMap {β γ : Type} {f : ℕ × β → List (ℕ × γ)} (p : ℕ × β → Bool)
    (hfst : ∀ row, ∀ row' ∈ f row, row'.1 = row.1)
    (hlength : ∀ row, (f row).length = if p row then 1 else 0) (rows : List (ℕ × β)) :
    (rows.flatMap f).map Prod.fst = (rows.filter p).map Prod.fst := by
  induction rows with
  | nil => rfl
  | cons row rows ih =>
    have hlength := hlength row
    have hfst := hfst row
    rw [List.flatMap_cons, List.map_append, ih, List.filter_cons]
    split_ifs at hlength ⊢ with hp
    · obtain ⟨row', hrow'⟩ := List.length_eq_one_iff.mp hlength
      rw [hrow'] at hfst ⊢
      rw [List.map_singleton, hfst row' List.mem_cons_self, List.singleton_append, List.map_cons]
    · rw [List.length_eq_zero_iff.mp hlength, List.map_nil, List.nil_append]

/-- The times of the ticks that are selected. -/
theorem map_fst_tickRows (hquote : IsTable (tick "klyusd")) (params : PriceParams) :
    (tickRows tick params).map Prod.fst = ((tick params.pair).filter fun row =>
      params.onInterval row.1 && params.between row.1).map Prod.fst := by
  rw [tickRows]
  split_ifs
  · rw [map_fst_flatMap (fun _ => true), List.filter_true]
    · intro row row' hrow'
      obtain ⟨quote, -, rfl⟩ := List.mem_map.mp hrow'
      rfl
    · exact fun row => (List.length_map _).trans (hquote.length_partners row)
  · rfl

/-- A candle has a candle of KLY to be converted with, if it needs one. -/
def convertible (ohlc : String → String → List (ℕ × OhlcRow)) (params : PriceParams)
    (row : ℕ × OhlcRow) : Bool :=
  !params.includeConversion || (ohlc "klyusd" params.timeframe).any (sameTime row)

/-- The times of the candles that are selected. -/
theorem map_fst_ohlcRows (hquote : IsTable (ohlc "klyusd" params.timeframe)) :
    (ohlcRows ohlc params).map Prod.fst = ((ohlc params.pair params.timeframe).filter fun row =>
      params.between row.1 && convertible ohlc params row).map Prod.fst := by
  rw [ohlcRows]
  by_cases hconversion : params.includeConversion = true
  · rw [if_pos hconversion, map_fst_flatMap
      (fun row => (ohlc "klyusd" params.timeframe).any (sameTime row)), List.filter_filter]
    · simp [convertible, hconversion, Bool.and_comm]
    · intro row row' hrow'
      obtain ⟨quote, -, rfl⟩ := List.mem_map.mp hrow'
      rfl
    · intro row
      have hle := hquote.length_sameTime row
      rw [List.length_map]
      split_ifs with hany
      · obtain ⟨quote, hquote, hsame⟩ := List.any_eq_true.mp hany
        have hpos := List.length_pos_of_mem (List.mem_filter.mpr ⟨hquote, hsame⟩)
        omega
      · rw [List.length_eq_zero_iff, List.filter_eq_nil_iff]
        exact fun quote hquote hsame => hany (List.any_eq_true.mpr ⟨quote, hquote, hsame⟩)
  · rw [if_neg hconversion]
    simp [convertible, hconversion]

/-- As many rows as the table, if no row is left out. -/
theorem length_eq_iff {β γ : Type} {rows : List (ℕ × β)} {rows' : List (ℕ × γ)}
    {p : ℕ × β → Bool} (h : rows'.map Prod.fst = (rows.filter p).map Prod.fst) :
    rows.length = rows'.length ↔ ∀ row ∈ rows, p row = true := by
  have hlength : rows'.length = (rows.filter p).length := by simpa using congrArg List.length h
  rw [hlength, eq_comm, List.length_filter_eq_length_iff]

theorem isTable_of_map_fst {β γ : Type} {rows : List (ℕ × β)} {rows' : List (ℕ × γ)}
    {p : ℕ × β → Bool} (hrows : IsTable rows)
    (h : rows'.map Prod.fst = (rows.filter p).map Prod.fst) :
    IsTable rows' ∧ rows'.length ≤ rows.length := by
  have hlength : rows'.length = (rows.filter p).length := by simpa using congrArg List.length h
  refine ⟨?_, hlength.trans_le (List.length_filter_le _ _)⟩
  rw [IsTable, h]
  exact hrows.sublist (List.filter_sublist.map _)

/-- The request for a page. -/
def PriceParams.page (params : PriceParams) (limit i : ℕ) : PriceParams :=
  { params with limit := some limit, offset := some (i * limit) }

theorem respond_page {β : Type} (rows : List (ℕ × β)) {limit : ℕ} (hlimit : 0 < limit)
    (i total : ℕ) :
    (respond (params.page limit i) rows total).data = latestEntries limit (i * limit) rows := by
  have horElse (n fallback : ℕ) (h : fallback = 0 ∨ 0 < n) : orElse (some n) fallback = n := by
    cases n with
    | zero => exact h.resolve_right (lt_irrefl 0)
    | succ n => rfl
  rw [respond, PriceParams.page, horElse limit 100 (.inr hlimit), horElse _ 0 (.inl rfl)]

/-- The rows that are answered to a request for candles. -/
def ohlcData (ohlc : String → String → List (ℕ × OhlcRow)) (params : PriceParams) :
    List (ℕ × OhlcRow) :=
  (getOhlcPrice ohlc params).toOption.elim [] PriceResponse.data

/-- **Pages of prices.** The pages up to the total that is answered, the last first, are the series
of the rows that are selected. The total is the number of these rows if and only if no row is
outside of the interval of time or left out; of the candles that are converted it has to be that
each of them has one of KLY. -/
theorem price_pages (htick : ∀ pair, IsTable (tick pair))
    (hohlc : ∀ pair timeframe, IsTable (ohlc pair timeframe)) (params : PriceParams) {limit : ℕ}
    (hlimit : 0 < limit) :
    (∀ n, (getTickPrice tick params).total ≤ n * limit →
      (List.range n).reverse.flatMap (fun i => (getTickPrice tick (params.page limit i)).data) =
        series (tickRows tick params)) ∧
    ((getTickPrice tick params).total = (tickRows tick params).length ↔
      ∀ row ∈ tick params.pair, params.onInterval row.1 = true ∧ params.between row.1 = true) ∧
    ∀ r, getOhlcPrice ohlc params = .ok r →
      (∀ n, r.total ≤ n * limit →
        (List.range n).reverse.flatMap (fun i => ohlcData ohlc (params.page limit i)) =
          series (ohlcRows ohlc params)) ∧
      (r.total = (ohlcRows ohlc params).length ↔ ∀ row ∈ ohlc params.pair params.timeframe,
        params.between row.1 = true ∧ convertible ohlc params row = true) := by
  have htickRows := map_fst_tickRows (htick "klyusd") params
  have hohlcRows : (ohlcRows ohlc params).map Prod.fst = _ :=
    map_fst_ohlcRows (hohlc "klyusd" params.timeframe)
  obtain ⟨hticks, htotal⟩ := isTable_of_map_fst (htick params.pair) htickRows
  obtain ⟨hcandles, htotal'⟩ := isTable_of_map_fst (hohlc params.pair params.timeframe) hohlcRows
  refine ⟨fun n hn => ?_, ?_, fun r hr => ?_⟩
  · have hpage (i : ℕ) : (getTickPrice tick (params.page limit i)).data =
        latestEntries limit (i * limit) (tickRows tick params) := respond_page _ hlimit i _
    simp only [hpage]
    exact flatMap_latestEntries hticks (htotal.trans hn)
  · refine (length_eq_iff htickRows).trans (forall₂_congr fun row _ => ?_)
    rw [Bool.and_eq_true]
  · rw [getOhlcPrice] at hr
    split_ifs at hr with htimeframe
    obtain rfl := Except.ok.inj hr
    refine ⟨fun n hn => ?_, ?_⟩
    · have hpage (i : ℕ) : ohlcData ohlc (params.page limit i) =
          latestEntries limit (i * limit) (ohlcRows ohlc params) := by
        have htimeframe' : ¬ intervalToSecond (params.page limit i).timeframe = none := htimeframe
        rw [ohlcData, getOhlcPrice, if_neg htimeframe']
        exact respond_page _ hlimit i _
      simp only [hpage]
      exact flatMap_latestEntries hcandles (htotal'.trans hn)
    · refine (length_eq_iff hohlcRows).trans (forall₂_congr fun row _ => ?_)
      rw [Bool.and_eq_true]

/-- Two prices of a pair, and two of KLY. -/
def twoTimes (pair : String) : List (ℕ × Option ℚ) :=
  if pair = "abckly" then [(60, some 2), (61, some 3)]
  else if pair = "klyusd" then [(60, some 5), (61, some 4)] else []

/-- Their candles of a minute. -/
def oneMinute (pair timeframe : String) : List (ℕ × OhlcRow) :=
  if timeframe = "1m" ∧ pair = "abckly" then [(60, ⟨2, 3, 2, 3⟩)]
  else if timeframe = "1m" ∧ pair = "klyusd" then [(60, ⟨5, 5, 4, 4⟩)] else []

/-- The prices in dollars. -/
def inDollars : PriceParams := ⟨"ABC", "USD", none, none, none, none, none, "1m"⟩

theorem twoTimes_isTable (pair : String) : IsTable (twoTimes pair) := by
  rw [twoTimes, IsTable]
  split_ifs <;> decide

theorem oneMinute_isTable (pair timeframe : String) : IsTable (oneMinute pair timeframe) := by
  rw [oneMinute, IsTable]
  split_ifs <;> decide

/-- Two pages of one price. -/
theorem price_pages_twoTimes :
    (List.range 2).reverse.flatMap (fun i => (getTickPrice twoTimes (inDollars.page 1 i)).data) =
        series (tickRows twoTimes inDollars) ∧
      tickRows twoTimes inDollars = [(60, some 10), (61, some 12)] :=
  ⟨(price_pages twoTimes_isTable oneMinute_isTable inDollars Nat.one_pos).1 2 (by decide),
    by decide +kernel⟩

end Rows

/-! ### What a converted candle stands for -/

section Candles

variable {vs : List ℚ} {c : OhlcRow}

/-- A candle encloses its prices, and its extremes are among them. -/
theorem candle_spec (h : candle vs = some c) :
    (c.high ∈ vs ∧ ∀ v ∈ vs, v ≤ c.high) ∧ c.low ∈ vs ∧ ∀ v ∈ vs, c.low ≤ v := by
  cases vs with
  | nil => cases h
  | cons v vs =>
    obtain rfl := Option.some.inj h
    exact ⟨List.max?_eq_some_iff.mp List.max?_cons', List.min?_eq_some_iff.mp List.min?_cons'⟩

theorem mem_prices_iff {prices : ℕ → Option ℚ} {lo hi : ℕ} {v : ℚ} :
    v ∈ (List.range' lo (hi - lo)).filterMap prices ↔ ∃ t, lo ≤ t ∧ t < hi ∧ prices t = some v := by
  rw [List.mem_filterMap]
  refine exists_congr fun t => ?_
  rw [List.mem_range'_1, and_assoc]
  constructor
  · rintro ⟨hlo, hhi, hv⟩
    exact ⟨hlo, by omega, hv⟩
  · rintro ⟨hlo, hhi, hv⟩
    exact ⟨hlo, by omega, hv⟩

/-- A product of two candles over the prices of the same times. -/
theorem timesRow_spec {base quote : ℕ → Option ℚ} {lo hi : ℕ} {b q : OhlcRow}
    (hbase : ∀ t v, base t = some v → 0 < v) (hquote : ∀ t v, quote t = some v → 0 < v)
    (hb : candleOver base lo hi = some b) (hq : candleOver quote lo hi = some q) :
    (∀ t x, lo ≤ t → t < hi → times (base t) (quote t) = some x →
      (timesRow b q).low ≤ x ∧ x ≤ (timesRow b q).high) ∧
    ((∃ t, lo ≤ t ∧ t < hi ∧ times (base t) (quote t) = some (timesRow b q).high) ↔
      ∃ t, lo ≤ t ∧ t < hi ∧ base t = some b.high ∧ quote t = some q.high) ∧
    ((∃ t, lo ≤ t ∧ t < hi ∧ times (base t) (quote t) = some (timesRow b q).low) ↔
      ∃ t, lo ≤ t ∧ t < hi ∧ base t = some b.low ∧ quote t = some q.low) := by
  obtain ⟨⟨hbhigh, hble⟩, hblow, hleb⟩ := candle_spec hb
  obtain ⟨⟨hqhigh, hqle⟩, hqlow, hleq⟩ := candle_spec hq
  have hpos {prices : ℕ → Option ℚ} (hprices : ∀ t v, prices t = some v → 0 < v) {v : ℚ}
      (hv : v ∈ (List.range' lo (hi - lo)).filterMap prices) : 0 < v := by
    obtain ⟨t, -, -, ht⟩ := mem_prices_iff.mp hv
    exact hprices t v ht
  have htimes {t : ℕ} {x : ℚ} (hx : times (base t) (quote t) = some x) :
      ∃ v w, base t = some v ∧ quote t = some w ∧ v * w = x := by
    obtain ⟨v, hv, hx⟩ := Option.bind_eq_some_iff.mp hx
    obtain ⟨w, hw, hx⟩ := Option.map_eq_some_iff.mp hx
    exact ⟨v, w, hv, hw, hx⟩
  have hproduct {t : ℕ} {v w : ℚ} (hv : base t = some v) (hw : quote t = some w) :
      times (base t) (quote t) = some (v * w) := by
    rw [times, hv, hw]
    rfl
  -- Of positive numbers a product is the greatest, or least, only if both factors are.
  refine ⟨fun t x hlo hhi hx => ?_, ?_, ?_⟩
  · obtain ⟨v, w, hv, hw, rfl⟩ := htimes hx
    have hvmem := mem_prices_iff.mpr ⟨t, hlo, hhi, hv⟩
    have hwmem := mem_prices_iff.mpr ⟨t, hlo, hhi, hw⟩
    exact ⟨mul_le_mul (hleb v hvmem) (hleq w hwmem) (hpos hquote hqlow).le (hbase t v hv).le,
      mul_le_mul (hble v hvmem) (hqle w hwmem) (hquote t w hw).le (hpos hbase hbhigh).le⟩
  · constructor
    · rintro ⟨t, hlo, hhi, hx⟩
      obtain ⟨v, w, hv, hw, hx⟩ := htimes hx
      obtain ⟨rfl, rfl⟩ := (mul_eq_mul_iff_eq_and_eq_of_pos
        (hble v (mem_prices_iff.mpr ⟨t, hlo, hhi, hv⟩))
        (hqle w (mem_prices_iff.mpr ⟨t, hlo, hhi, hw⟩)) (hbase t v hv) (hpos hquote hqhigh)).mp hx
      exact ⟨t, hlo, hhi, hv, hw⟩
    · rintro ⟨t, hlo, hhi, hv, hw⟩
      exact ⟨t, hlo, hhi, hproduct hv hw⟩
  · constructor
    · rintro ⟨t, hlo, hhi, hx⟩
      obtain ⟨v, w, hv, hw, hx⟩ := htimes hx
      obtain ⟨hv', hw'⟩ := (mul_eq_mul_iff_eq_and_eq_of_pos
        (hleb v (mem_prices_iff.mpr ⟨t, hlo, hhi, hv⟩))
        (hleq w (mem_prices_iff.mpr ⟨t, hlo, hhi, hw⟩)) (hpos hbase hblow) (hquote t w hw)).mp
          hx.symm
      exact ⟨t, hlo, hhi, hv'.symm ▸ hv, hw'.symm ▸ hw⟩
    · rintro ⟨t, hlo, hhi, hv, hw⟩
      exact ⟨t, hlo, hhi, hproduct hv hw⟩

/-- The price of a time. -/
def tickAt (tick : String → List (ℕ × Option ℚ)) (pair : String) (t : ℕ) : Option ℚ :=
  ((tick pair).lookup t).join

theorem IsTable.lookup_eq {β : Type} {rows : List (ℕ × β)} (h : IsTable rows) {row : ℕ × β}
    (hmem : row ∈ rows) : rows.lookup row.1 = some row.2 := by
  induction rows with
  | nil => exact absurd hmem List.not_mem_nil
  | cons row' rows ih =>
    obtain ⟨hnot, hrest⟩ := List.nodup_cons.mp h
    rw [List.lookup_cons]
    rcases List.mem_cons.mp hmem with rfl | hmem
    · rw [beq_self_eq_true]
    · have hne : row.1 ≠ row'.1 := fun heq => hnot (heq ▸ List.mem_map_of_mem hmem)
      rw [beq_false_of_ne hne]
      exact ih hrest hmem

variable {tick : String → List (ℕ × Option ℚ)} {ohlc : String → String → List (ℕ × OhlcRow)}
  {params : PriceParams}

/-- All prices of a pair are positive. A price below half of the eighth decimal is stored as 0. -/
def Positive (rows : List (ℕ × Option ℚ)) : Prop := ∀ row ∈ rows, ∀ v, row.2 = some v → 0 < v

theorem Positive.tickAt_pos {pair : String} (hpos : Positive (tick pair)) {t : ℕ} {v : ℚ}
    (h : tickAt tick pair t = some v) : 0 < v := by
  obtain ⟨value, hlookup, hvalue⟩ : ∃ value, (tick pair).lookup t = some value ∧
      value = some v := ⟨_, Option.join_eq_some_iff.mp h, rfl⟩
  obtain ⟨before, after, hrows, -⟩ := List.lookup_eq_some_iff.mp hlookup
  exact hpos (t, value) (hrows ▸ List.mem_append_right _ List.mem_cons_self) v hvalue

/-- What is answered for a time is the product of the prices of this time. -/
theorem tickRows_eq_times (htick : ∀ pair, IsTable (tick pair))
    (hconversion : params.includeConversion = true) {r : ℕ × Option ℚ}
    (hr : r ∈ tickRows tick params) :
    r.2 = times (tickAt tick params.pair r.1) (tickAt tick "klyusd" r.1) := by
  rw [tickRows, if_pos hconversion] at hr
  obtain ⟨row, hrow, hr⟩ := List.mem_flatMap.mp hr
  obtain ⟨quote, hquote, rfl⟩ := List.mem_map.mp hr
  have hbase := (htick params.pair).lookup_eq (List.mem_filter.mp hrow).1
  have hpartner : quote.bind (·.2) = tickAt tick "klyusd" row.1 := by
    rw [Join.partners] at hquote
    split_ifs at hquote with hempty
    · obtain rfl := List.mem_singleton.mp hquote
      have hnone : (tick "klyusd").lookup row.1 = none := by
        refine List.lookup_eq_none_iff.mpr fun row' hrow' => bne_iff_ne.mpr fun heq => ?_
        exact List.filter_eq_nil_iff.mp (List.isEmpty_iff.mp hempty) row' hrow'
          (decide_eq_true heq.symm)
      rw [tickAt, hnone]
      rfl
    · obtain ⟨row', hrow', rfl⟩ := List.mem_map.mp hquote
      obtain ⟨hmem, hsame⟩ := List.mem_filter.mp hrow'
      have htime : row'.1 = row.1 := of_decide_eq_true hsame
      rw [tickAt, ← htime, (htick "klyusd").lookup_eq hmem]
      rfl
  rw [tickAt, hbase, hpartner]
  rfl

/-- **Converted candles.** Where the candle of a pair and that of KLY are those of the prices of one
window of time, and all these prices are positive, their product encloses every price that is
answered for a time of the window; and it is reached by one of them if and only if both pairs are at
their highest, or lowest, at one time. -/
theorem converted_candle (htick : ∀ pair, IsTable (tick pair))
    (hposBase : Positive (tick params.pair)) (hposQuote : Positive (tick "klyusd"))
    (hconversion : params.includeConversion = true) {c : ℕ × OhlcRow}
    (hc : c ∈ ohlcRows ohlc params) {lo hi : ℕ}
    (hbase : ∀ b, (c.1, b) ∈ ohlc params.pair params.timeframe →
      candleOver (tickAt tick params.pair) lo hi = some b)
    (hquote : ∀ q, (c.1, q) ∈ ohlc "klyusd" params.timeframe →
      candleOver (tickAt tick "klyusd") lo hi = some q) :
    (∀ r ∈ tickRows tick params, lo ≤ r.1 → r.1 < hi → ∀ x, r.2 = some x →
      c.2.low ≤ x ∧ x ≤ c.2.high) ∧
    ∃ b q, (c.1, b) ∈ ohlc params.pair params.timeframe ∧
      (c.1, q) ∈ ohlc "klyusd" params.timeframe ∧
      ((∃ t, lo ≤ t ∧ t < hi ∧
          times (tickAt tick params.pair t) (tickAt tick "klyusd" t) = some c.2.high) ↔
        ∃ t, lo ≤ t ∧ t < hi ∧ tickAt tick params.pair t = some b.high ∧
          tickAt tick "klyusd" t = some q.high) ∧
      ((∃ t, lo ≤ t ∧ t < hi ∧
          times (tickAt tick params.pair t) (tickAt tick "klyusd" t) = some c.2.low) ↔
        ∃ t, lo ≤ t ∧ t < hi ∧ tickAt tick params.pair t = some b.low ∧
          tickAt tick "klyusd" t = some q.low) := by
  rw [ohlcRows, if_pos hconversion] at hc
  obtain ⟨⟨time, b⟩, hb, hc⟩ := List.mem_flatMap.mp hc
  obtain ⟨⟨time', q⟩, hq, rfl⟩ := List.mem_map.mp hc
  obtain ⟨hq', hsame⟩ := List.mem_filter.mp hq
  have hb' := (List.mem_filter.mp hb).1
  obtain rfl : time' = time := of_decide_eq_true hsame
  obtain ⟨hbetween, hhigh, hlow⟩ := timesRow_spec (fun _ _ => hposBase.tickAt_pos)
    (fun _ _ => hposQuote.tickAt_pos) (hbase b hb') (hquote q hq')
  refine ⟨fun r hr hlo hhi x hx => hbetween r.1 x hlo hhi ?_, b, q, hb', hq', hhigh, hlow⟩
  rw [← tickRows_eq_times htick hconversion hr, hx]

theorem twoTimes_pos (pair : String) : Positive (twoTimes pair) := by
  rw [Positive, twoTimes]
  split_ifs <;> simp

/-- The highest prices of the two pairs are not of the same time. -/
theorem converted_candle_twoTimes : ¬ ∃ t, 60 ≤ t ∧ t < 62 ∧
    times (tickAt twoTimes "abckly" t) (tickAt twoTimes "klyusd" t) = some 15 := by
  have hpair : inDollars.pair = "abckly" := by decide
  have hbase : ∀ b, (60, b) ∈ oneMinute inDollars.pair "1m" →
      candleOver (tickAt twoTimes inDollars.pair) 60 62 = some b := by
    intro b hb
    obtain rfl : b = ⟨2, 3, 2, 3⟩ := by simpa [oneMinute, hpair] using hb
    decide +kernel
  have hquote : ∀ q, (60, q) ∈ oneMinute "klyusd" "1m" →
      candleOver (tickAt twoTimes "klyusd") 60 62 = some q := by
    intro q hq
    obtain rfl : q = ⟨5, 5, 4, 4⟩ := by simpa [oneMinute] using hq
    decide +kernel
  have hc : (60, (⟨10, 15, 8, 12⟩ : OhlcRow)) ∈ ohlcRows oneMinute inDollars := by decide +kernel
  obtain ⟨-, b, q, hb, hq, hhigh, -⟩ :=
    converted_candle twoTimes_isTable (twoTimes_pos _) (twoTimes_pos _) (by decide) hc hbase hquote
  obtain ⟨-, rfl⟩ : inDollars.timeframe = "1m" ∧ b = ⟨2, 3, 2, 3⟩ := by
    simpa [oneMinute, hpair] using hb
  obtain ⟨-, rfl⟩ : inDollars.timeframe = "1m" ∧ q = ⟨5, 5, 4, 4⟩ := by simpa [oneMinute] using hq
  intro hreached
  obtain ⟨t, hlo, hhi, hb, hq⟩ := hhigh.mp (hpair ▸ hreached)
  obtain rfl | rfl : t = 60 ∨ t = 61 := by omega
  · exact absurd hb (by decide +kernel)
  · exact absurd hq (by decide +kernel)

end Candles

end PriceSeries

end SwaptoshiService
