import Mathlib.Algebra.Order.Ring.Rat
import Mathlib.Tactic.Linarith
import SwaptoshiService.Indexer.KlyusdPrices
import SwaptoshiService.Lib.Run
import SwaptoshiService.Lib.Settle

/-!
# What an OHLC row stands for

The source candles of the market, which the historical jobs write, hold under their start time
`T` the first, the highest, the lowest and the last price of the timeframe that **begins** at `T`,
as far as it has come: the last batch asks for the candle in progress too. The live jobs compute a
row for the same time `T` from the ticks of `BETWEEN T - s AND T`: the query has one group for the
timeframe that **ended** at `T` and one for the single tick at `T` (`candles_window`), and the job
takes the candle of the one that comes first.

`candles_mean` says for which prices this makes no difference. A timeframe has a positive length:
for `current`, of 0 seconds, `normalizeBlockTime` is not a number.
-/

namespace SwaptoshiService

open Session

/-! ### Candles over an interval -/

/-- The prices with `lo ≤ time < hi`, by time. -/
def valuesOver (prices : ℕ → Option ℚ) (lo hi : ℕ) : List ℚ :=
  (List.range' lo (hi - lo)).filterMap prices

/-- The first, highest, lowest and last of the prices with `lo ≤ time < hi`. -/
def candleOver (prices : ℕ → Option ℚ) (lo hi : ℕ) : Option OhlcRow :=
  candle (valuesOver prices lo hi)

/-- Two courses of the price begin and end alike, and each goes as high and as low as the other. -/
structure SameCourse (vs ws : List ℚ) : Prop where
  first : vs.head? = ws.head?
  last : vs.getLast? = ws.getLast?
  above : ∀ v ∈ vs, ∃ w ∈ ws, v ≤ w
  below : ∀ v ∈ vs, ∃ w ∈ ws, w ≤ v
  within : ∀ w ∈ ws, (∃ v ∈ vs, w ≤ v) ∧ ∃ v ∈ vs, v ≤ w

section Course

variable {vs ws : List ℚ} {m n : ℚ}

private theorem max_eq_iff (hm : vs.max? = some m) (hn : ws.max? = some n) :
    m = n ↔ (∀ v ∈ vs, ∃ w ∈ ws, v ≤ w) ∧ ∀ w ∈ ws, ∃ v ∈ vs, w ≤ v := by
  obtain ⟨hmem, hmax⟩ := List.max?_eq_some_iff.mp hm
  obtain ⟨hmem', hmax'⟩ := List.max?_eq_some_iff.mp hn
  constructor
  · rintro rfl
    exact ⟨fun v hv => ⟨m, hmem', hmax v hv⟩, fun w hw => ⟨m, hmem, hmax' w hw⟩⟩
  · rintro ⟨hle, hge⟩
    obtain ⟨w, hw, hmw⟩ := hle m hmem
    obtain ⟨v, hv, hnv⟩ := hge n hmem'
    exact le_antisymm (hmw.trans (hmax' w hw)) (hnv.trans (hmax v hv))

private theorem min_eq_iff (hm : vs.min? = some m) (hn : ws.min? = some n) :
    m = n ↔ (∀ v ∈ vs, ∃ w ∈ ws, w ≤ v) ∧ ∀ w ∈ ws, ∃ v ∈ vs, v ≤ w := by
  obtain ⟨hmem, hmin⟩ := List.min?_eq_some_iff.mp hm
  obtain ⟨hmem', hmin'⟩ := List.min?_eq_some_iff.mp hn
  constructor
  · rintro rfl
    exact ⟨fun v hv => ⟨m, hmem', hmin v hv⟩, fun w hw => ⟨m, hmem, hmin' w hw⟩⟩
  · rintro ⟨hge, hle⟩
    obtain ⟨w, hw, hwm⟩ := hge m hmem
    obtain ⟨v, hv, hvn⟩ := hle n hmem'
    exact le_antisymm ((hmin v hv).trans hvn) ((hmin' w hw).trans hwm)

/-- Two courses have the same candle exactly when they are the same in this sense. -/
theorem candle_eq_iff : candle vs = candle ws ↔ SameCourse vs ws := by
  rcases vs with _ | ⟨v, vs⟩ <;> rcases ws with _ | ⟨w, ws⟩
  · exact iff_of_true rfl ⟨rfl, rfl, by simp, by simp, by simp⟩
  · exact iff_of_false (by simp [candle]) fun h => by simpa using h.first
  · exact iff_of_false (by simp [candle]) fun h => by simpa using h.first
  · have hmax : vs.foldl max v = ws.foldl max w ↔ _ := max_eq_iff List.max?_cons' List.max?_cons'
    have hmin : vs.foldl min v = ws.foldl min w ↔ _ := min_eq_iff List.min?_cons' List.min?_cons'
    have hlast : ∀ (x : ℚ) (xs : List ℚ), (x :: xs).getLast? = some (xs.getLastD x) := by
      intro x xs
      rw [List.getLast?_cons, List.getLastD_eq_getLast?]
    rw [candle, candle, Option.some_inj, OhlcRow.mk.injEq, hmax, hmin]
    constructor
    · rintro ⟨hfirst, ⟨habove, habove'⟩, ⟨hbelow, hbelow'⟩, hend⟩
      refine ⟨by rw [hfirst, List.head?_cons, List.head?_cons], ?_, habove, hbelow,
        fun w hw => ⟨habove' w hw, hbelow' w hw⟩⟩
      rw [hlast, hlast, hend]
    · intro h
      refine ⟨Option.some.inj h.first, ⟨h.above, fun w hw => (h.within w hw).1⟩,
        ⟨h.below, fun w hw => (h.within w hw).2⟩, ?_⟩
      have hend := h.last
      rw [hlast, hlast] at hend
      exact Option.some.inj hend

end Course

/-- The values of tick rows. -/
def tickValues (ticks : ℕ → Option TickPriceRow) (t : ℕ) : Option ℚ := (ticks t).map (·.value)

section Groups

variable {key : ℕ × ℚ → ℕ} {a b : ℕ} {rows rows' : List (ℕ × ℚ)}

private theorem eraseDups_of_const {l : List ℕ} (h : ∀ x ∈ l, x = a) (hl : l ≠ []) :
    l.eraseDups = [a] := by
  obtain ⟨x, l, rfl⟩ := List.exists_cons_of_ne_nil hl
  obtain rfl : x = a := h x List.mem_cons_self
  have hrest : l.filter (fun b => !b == x) = [] := by
    refine List.filter_eq_nil_iff.mpr fun y hy => ?_
    simp [h y (List.mem_cons_of_mem x hy)]
  rw [List.eraseDups_cons, hrest, List.eraseDups_nil]

private theorem eraseDups_keys (ha : ∀ r ∈ rows, key r = a) (hb : ∀ r ∈ rows', key r = b)
    (hab : a ≠ b) :
    ((rows ++ rows').map key).eraseDups =
      (if rows = [] then [] else [a]) ++ if rows' = [] then [] else [b] := by
  have hconst : ∀ (l : List (ℕ × ℚ)) (c : ℕ), (∀ r ∈ l, key r = c) →
      (l.map key).eraseDups = if l = [] then [] else [c] := by
    intro l c hl
    split
    · rename_i hnil
      rw [hnil]
      rfl
    · rename_i hne
      refine eraseDups_of_const (fun x hx => ?_) (by simpa using hne)
      obtain ⟨r, hr, rfl⟩ := List.mem_map.mp hx
      exact hl r hr
  have hremove : (rows'.map key).removeAll (rows.map key) = rows'.map key := by
    refine List.filter_eq_self.mpr fun x hx => ?_
    obtain ⟨r', hr', rfl⟩ := List.mem_map.mp hx
    simp only [List.elem_eq_mem, Bool.not_eq_true', decide_eq_false_iff_not, List.mem_map,
      not_exists, not_and]
    intro r hr hkey
    rw [ha r hr, hb r' hr'] at hkey
    exact hab hkey
  rw [List.map_append, List.eraseDups_append, hremove, hconst rows a ha, hconst rows' b hb]

private theorem filter_key (ha : ∀ r ∈ rows, key r = a) (hb : ∀ r ∈ rows', key r = b)
    (hab : a ≠ b) :
    (rows ++ rows').filter (fun r => key r = a) = rows ∧
      (rows ++ rows').filter (fun r => key r = b) = rows' := by
  have hself : ∀ (l : List (ℕ × ℚ)) (c : ℕ), (∀ r ∈ l, key r = c) →
      l.filter (fun r => key r = c) = l :=
    fun l c hl => List.filter_eq_self.mpr fun r hr => decide_eq_true (hl r hr)
  have hnone : ∀ (l : List (ℕ × ℚ)) (c d : ℕ), c ≠ d → (∀ r ∈ l, key r = c) →
      l.filter (fun r => key r = d) = [] := by
    intro l c d hcd hl
    refine List.filter_eq_nil_iff.mpr fun r hr => ?_
    simpa [hl r hr] using hcd
  constructor
  · rw [List.filter_append, hself rows a ha, hnone rows' b a hab.symm hb, List.append_nil]
  · rw [List.filter_append, hself rows' b hb, hnone rows a b hab ha, List.nil_append]

/-- Values with two keys make two groups. -/
private theorem groups_append (ha : ∀ r ∈ rows, key r = a) (hb : ∀ r ∈ rows', key r = b)
    (hab : a ≠ b) :
    (((rows ++ rows').map key).eraseDups.filterMap fun k =>
      candle (((rows ++ rows').filter fun r => key r = k).map (·.2))) =
      (candle (rows.map (·.2))).toList ++ (candle (rows'.map (·.2))).toList := by
  have hhalf : ∀ (l : List (ℕ × ℚ)) (c : ℕ) (group : ℕ → Option OhlcRow),
      group c = candle (l.map (·.2)) →
      (if l = [] then [] else [c]).filterMap group = (candle (l.map (·.2))).toList := by
    intro l c group hc
    split
    · rename_i hnil
      rw [hnil]
      rfl
    · rw [List.filterMap_cons, hc, List.filterMap_nil]
      cases candle (l.map (·.2)) with
      | none => rfl
      | some r => rfl
  obtain ⟨hfa, hfb⟩ := filter_key ha hb hab
  rw [eraseDups_keys ha hb hab, List.filterMap_append]
  refine congrArg₂ (· ++ ·) (hhalf rows a _ ?_) (hhalf rows' b _ ?_)
  · rw [hfa]
  · rw [hfb]

end Groups

/-- **The groups of the query.** At the time `T` of a candle the ticks from `T - s` to `T` make one
group for the timeframe before `T`, and one for the tick at `T`. -/
theorem candles_window (ticks : ℕ → Option TickPriceRow) {second time : ℕ} (hs : 0 < second)
    (ht : second ∣ time) :
    candles ticks second (time - second) time =
      (candleOver (tickValues ticks) (time - second) time).toList ++
        (candleOver (tickValues ticks) time (time + 1)).toList := by
  obtain ⟨k, rfl⟩ := ht
  set time := second * k with htime
  let row (t : ℕ) : Option (ℕ × ℚ) := (ticks t).map fun r => (t, r.value)
  have hrows : ticksBetween ticks (time - second) time =
      (List.range' (time - second) (time - (time - second))).filterMap row ++
        (List.range' time (time + 1 - time)).filterMap row := by
    have hlo : time - second + (time - (time - second)) = time := by omega
    have hlen : time - (time - second) + (time + 1 - time) = time + 1 - (time - second) := by omega
    have happend := @List.range'_append_1 (time - second) (time - (time - second))
      (time + 1 - time)
    rw [hlo, hlen] at happend
    rw [← List.filterMap_append, happend]
    rfl
  have hmem : ∀ {lo n : ℕ} {r : ℕ × ℚ}, r ∈ (List.range' lo n).filterMap row →
      lo ≤ r.1 ∧ r.1 < lo + n := by
    intro lo n r hr
    obtain ⟨t, ht, hrow⟩ := List.mem_filterMap.mp hr
    obtain ⟨-, -, rfl⟩ := Option.map_eq_some_iff.mp hrow
    exact List.mem_range'_1.mp ht
  have hvalues : ∀ l : List ℕ, (l.filterMap row).map (·.2) = l.filterMap (tickValues ticks) := by
    intro l
    rw [List.map_filterMap]
    refine List.filterMap_congr fun t _ => ?_
    rw [Option.map_map]
    rfl
  rw [candles, hrows, candleOver, candleOver, valuesOver, valuesOver, ← hvalues, ← hvalues]
  -- Before the first full timeframe there is nothing, so any other key will do.
  refine groups_append (a := if k = 0 then 1 else k - 1) (b := k) (fun r hr => ?_)
    (fun r hr => ?_) (by split <;> omega)
  · obtain ⟨hlo, hhi⟩ := hmem hr
    obtain ⟨m, rfl⟩ : ∃ m, k = m + 1 := Nat.exists_eq_succ_of_ne_zero fun hk => by
      rw [htime, hk] at hlo hhi
      omega
    rw [if_neg (Nat.succ_ne_zero m), Nat.add_sub_cancel]
    have hsplit : second * (m + 1) = m * second + second := by rw [Nat.mul_comm, Nat.succ_mul]
    refine Nat.div_eq_of_lt_le ?_ ?_
    · omega
    · rw [Nat.succ_mul]
      omega
  · obtain ⟨hlo, hhi⟩ := hmem hr
    have hr1 : r.1 = time := by omega
    rw [hr1, htime]
    exact Nat.mul_div_cancel_left k hs

/-! ### Prices and the rows they are stored in -/

private theorem floor_mono_decimal {x y : ℚ} (h : x ≤ y) :
    ((x * 10 ^ 8 + 1 / 2).floor : ℚ) ≤ ((y * 10 ^ 8 + 1 / 2).floor : ℚ) := by
  have hmono : x * 10 ^ 8 + 1 / 2 ≤ y * 10 ^ 8 + 1 / 2 := by linarith
  exact_mod_cast Rat.floor_monotone hmono

private theorem floor_decimal_nonneg {x : ℚ} (h : 0 ≤ x) :
    0 ≤ ((x * 10 ^ 8 + 1 / 2).floor : ℚ) := by
  have hzero : ((0 * 10 ^ 8 + 1 / 2 : ℚ).floor : ℚ) = 0 := by decide +kernel
  rw [← hzero]
  exact floor_mono_decimal h

theorem toDecimal_monotone : Monotone toDecimal := by
  intro p q hpq
  rw [toDecimal, toDecimal]
  split
  · rename_i hp
    have hfloor := floor_decimal_nonneg (x := -p) (by linarith)
    split
    · rename_i hq
      have hmono := floor_mono_decimal (x := -q) (y := -p) (by linarith)
      linarith
    · have hfloor' := floor_decimal_nonneg (x := q) (by linarith)
      linarith
  · rename_i hp
    have hq : ¬ q < 0 := by linarith
    rw [if_neg hq]
    have hmono := floor_mono_decimal hpq
    linarith

/-- Rounding to the precision of the columns commutes with taking candles. -/
theorem candle_map {f : ℚ → ℚ} (hf : Monotone f) (vs : List ℚ) :
    candle (vs.map f) = (candle vs).map fun r => ⟨f r.open, f r.high, f r.low, f r.close⟩ := by
  cases vs with
  | nil => rfl
  | cons v vs =>
    have hmax : ∀ (l : List ℚ) (x : ℚ), (l.map f).foldl max (f x) = f (l.foldl max x) := by
      intro l
      induction l with
      | nil => exact fun x => rfl
      | cons y l ih =>
        intro x
        rw [List.map_cons, List.foldl_cons, List.foldl_cons, ← hf.map_max, ih]
    have hmin : ∀ (l : List ℚ) (x : ℚ), (l.map f).foldl min (f x) = f (l.foldl min x) := by
      intro l
      induction l with
      | nil => exact fun x => rfl
      | cons y l ih =>
        intro x
        rw [List.map_cons, List.foldl_cons, List.foldl_cons, ← hf.map_min, ih]
    simp only [List.map_cons, candle, hmax, hmin, List.getLastD_map, Option.map_some]

/-! ### The jobs that write candles -/

/-- The prices of the pairs by time, past and future. -/
abbrev PriceHistory := String → ℕ → Option ℚ

/-- The prices as the tables hold them. -/
def PriceHistory.stored (hist : PriceHistory) (pair : String) (t : ℕ) : Option ℚ :=
  (hist pair t).map toDecimal

/-- The length of a timeframe. -/
def seconds (timeframe : String) : ℕ := (intervalToSecond timeframe).getD 0

/-- The row stands for the timeframe that begins at its time. -/
def Means (hist : PriceHistory) (pair timeframe : String) (time : ℕ) (row : OhlcRow) : Prop :=
  candleOver (hist.stored pair) time (time + seconds timeframe) = some row

/-- The end of what is known of the timeframe that begins at a time, both exclusive. -/
def knownUntil (timeframe : String) (start now : ℕ) : ℕ := min (start + seconds timeframe) (now + 1)

/-- A source candle holds the prices of the timeframe that begins at its start, up to now. -/
def SourceCandle (hist : PriceHistory) (timeframe : String) (now : ℕ) (c : Candle) : Prop :=
  candleOver (hist "klyusd") c.start (knownUntil timeframe c.start now) =
    some ⟨c.open, c.high, c.low, c.close⟩

/-- Every OHLC row has its meaning. -/
def AllMean (hist : PriceHistory) (db : DB) : Prop :=
  ∀ pair timeframe time row, db.get (.ohlc pair timeframe time) = some row →
    Means hist pair timeframe time row

/-- The live computation of one candle: `indexOhlc` with the number of its steps made so far. -/
structure OhlcStrand where
  pair : String
  timeframe : String
  timestamp : ℕ
  steps : ℕ
  rest : Prog Unit

/-- The time of the row that a strand writes. -/
def OhlcStrand.time (a : OhlcStrand) : ℕ := normalizeBlockTime a.timestamp a.timeframe

/-- The tables, the live computations and the historical jobs. -/
structure CandleJobs where
  session : DBSession
  live : List OhlcStrand
  historical : List (Prog Unit)

/-- The steps of the jobs; those of a live computation carry its place, and a historical job starts
with the answer of the market. -/
inductive CandleAction
  | startLive
  | advance (i : ℕ)
  | startHistorical (timeframe : String) (now : ℕ) (answer : Option (List Candle))
  | advanceHistorical
  | other

/-- One step. The timeframes have a positive length. -/
inductive CandleStep (env : Env) (hist : PriceHistory) :
    CandleJobs → CandleAction → CandleJobs → Prop
  | startLive {s : CandleJobs} (pair timeframe : String) (timestamp : ℕ)
      (hs : 0 < seconds timeframe) :
      CandleStep env hist s .startLive
        { s with live := ⟨pair, timeframe, timestamp, 0,
            indexOhlc env .default timestamp pair timeframe⟩ :: s.live }
  | advance {s : CandleJobs} {a : OhlcStrand} {u : DBSession → DBSession}
      {n : DBSession → Prog Unit} (i : ℕ) (hi : s.live[i]? = some a) (ha : a.rest = .step u n) :
      CandleStep env hist s (.advance i)
        { s with
          session := u s.session
          live := s.live.set i { a with steps := a.steps + 1, rest := n s.session } }
  /-- The market answers with source candles. -/
  | startHistorical {s : CandleJobs} (order : List ℕ) (market : Market) (timeframe : String)
      (lo hi now : ℕ) (hs : 0 < seconds timeframe)
      (hm : ∀ klyCandles, market timeframe lo hi = some klyCandles →
        ∀ c ∈ klyCandles, SourceCandle hist timeframe now c) :
      CandleStep env hist s (.startHistorical timeframe now (market timeframe lo hi))
        { s with historical :=
            indexPreviousKLYUSDOhlcPrice order market timeframe lo hi :: s.historical }
  | advanceHistorical {s : CandleJobs} {u : DBSession → DBSession} {n : DBSession → Prog Unit}
      (i : ℕ) (hi : s.historical[i]? = some (.step u n)) :
      CandleStep env hist s .advanceHistorical
        { s with session := u s.session, historical := s.historical.set i (n s.session) }
  /-- Ticks of the history arrive or go, candles are deleted, other tables change. -/
  | other {s : CandleJobs} (w : DBSession)
      (hticks : ∀ pair t r, w.committed.get (.tickPrice pair t) = some r →
        hist.stored pair t = some r.value)
      (hohlc : ∀ pair timeframe t, w.committed.get (.ohlc pair timeframe t) = none ∨
        w.committed.get (.ohlc pair timeframe t) =
          s.session.committed.get (.ohlc pair timeframe t)) :
      CandleStep env hist s .other { s with session := w }

/-- No job is active. -/
def CandleJobs.idle (session : DBSession) : CandleJobs := ⟨session, [], []⟩

/-- The tick values of a pair. -/
def CandleJobs.ticks (s : CandleJobs) (pair : String) : ℕ → Option ℚ :=
  tickValues fun t => s.session.committed.get (.tickPrice pair t)

/-- The ticks that a live computation for the time `T` reads, by group: those of the timeframe
before `T`, and the one at `T`. -/
def CandleJobs.groups (s : CandleJobs) (a : OhlcStrand) : List (List ℚ) :=
  [valuesOver (s.ticks a.pair) (a.time - seconds a.timeframe) a.time,
    valuesOver (s.ticks a.pair) a.time (a.time + 1)]

/-- The prices are such that it does not matter which of them are read. For a live computation for
the time `T`: the group of ticks that the database returns first and the prices **from** `T` on
take the same course. For the candles of a batch: what is known of the timeframe and the whole of
it do, as for a timeframe that is over. -/
def CandleJobs.Undistorted (env : Env) (hist : PriceHistory) (s : CandleJobs) :
    CandleAction → Prop
  | .advance i => ∀ a, s.live[i]? = some a → a.steps = 1 → ∀ group ∈ s.groups a, group ≠ [] →
      (env.rowOrder ((s.groups a).filterMap candle)).head? = candle group →
      SameCourse group (valuesOver (hist.stored a.pair) a.time (a.time + seconds a.timeframe))
  | .startHistorical timeframe now answer => ∀ klyCandles, answer = some klyCandles →
      ∀ c ∈ klyCandles,
        SameCourse (valuesOver (hist.stored "klyusd") c.start (knownUntil timeframe c.start now))
          (valuesOver (hist.stored "klyusd") c.start (c.start + seconds timeframe))
  | _ => True

/-! ### Statements that write only candles with their meaning -/

section Meaning

variable {env : Env} {hist : PriceHistory}

/-- The statement keeps the meaning of the OHLC rows. -/
def KeepsMeaning (hist : PriceHistory) (_ : Conn) (st : Stmt) : Prop :=
  ∀ db, AllMean hist db → AllMean hist (st.exec db)

/-- Rounding keeps what the market delivers. -/
private theorem SourceCandle.stored {timeframe : String} {now : ℕ} {c : Candle}
    (h : SourceCandle hist timeframe now c) :
    candleOver (hist.stored "klyusd") c.start (knownUntil timeframe c.start now) = some c.ohlc := by
  have hround := congrArg (Option.map fun r : OhlcRow =>
    (⟨toDecimal r.open, toDecimal r.high, toDecimal r.low, toDecimal r.close⟩ : OhlcRow)) h
  rw [candleOver, ← candle_map toDecimal_monotone, valuesOver, List.map_filterMap] at hround
  exact hround

/-- The row of a source candle has its meaning exactly when the rest of the timeframe brings nothing
new. -/
private theorem SourceCandle.means_iff {timeframe : String} {now : ℕ} {c : Candle}
    (h : SourceCandle hist timeframe now c) :
    Means hist "klyusd" timeframe c.start c.ohlc ↔
      SameCourse (valuesOver (hist.stored "klyusd") c.start (knownUntil timeframe c.start now))
        (valuesOver (hist.stored "klyusd") c.start (c.start + seconds timeframe)) := by
  rw [Means, ← h.stored, eq_comm]
  exact candle_eq_iff

private theorem keepsMeaning_upsertRow {pair timeframe : String} {time : ℕ} {row : OhlcRow}
    (h : Means hist pair timeframe time row) (conn : Conn) :
    KeepsMeaning hist conn (Table.upsertRow (.ohlc pair timeframe time) fun _ => row) := by
  intro db hdb pair' timeframe' time' row' hrow
  by_cases hc : Cell.ohlc pair' timeframe' time' = .ohlc pair timeframe time
  · obtain ⟨rfl, rfl, rfl⟩ := Cell.ohlc.inj hc
    rw [Write.exec_get, Table.upsertRow_act_self] at hrow
    exact Option.some.inj hrow ▸ h
  · rw [Write.exec_get, Table.upsertRow_fixes hc] at hrow
    exact hdb pair' timeframe' time' row' hrow

private theorem allMean_sends {u : DBSession → DBSession} (h : Sends (KeepsMeaning hist) u)
    {w : DBSession} (hw : AllMean hist w.committed) : AllMean hist (u w).committed := by
  obtain rfl | ⟨conn, st, hst, rfl⟩ := h
  · exact hw
  · cases conn with
    | default => exact hst w.committed hw
    | dbTrx => exact hw

/-- A historical job writes source candles. -/
private theorem confined_historical (order : List ℕ) {market : Market} {timeframe : String}
    {lo hi : ℕ} (hm : ∀ klyCandles, market timeframe lo hi = some klyCandles →
      ∀ c ∈ klyCandles, Means hist "klyusd" timeframe c.start c.ohlc) :
    Confined (KeepsMeaning hist)
      (indexPreviousKLYUSDOhlcPrice order market timeframe lo hi) := by
  rw [indexPreviousKLYUSDOhlcPrice, getKLYUSDCandles]
  cases hc : market timeframe lo hi with
  | none => exact confined_throw _
  | some klyCandles =>
    have hwrites : Confined (KeepsMeaning hist) (Async.interleave order (klyCandles.map fun c =>
        Table.upsert .default (.ohlc "klyusd" timeframe c.start) fun _ => c.ohlc) : Prog Unit) := by
      refine Confined.interleave fun p hp => ?_
      obtain ⟨c, hcmem, rfl⟩ := List.mem_map.mp hp
      exact confined_exec (keepsMeaning_upsertRow (hm klyCandles hc c hcmem) _)
    rw [Async.ofOption_some, Async.pure_bind']
    cases klyCandles with
    | nil => exact hwrites
    | cons c cs =>
      refine (confined_findRow .default (Cell.ohlc "klyusd" timeframe c.start)).bind fun row => ?_
      cases row with
      | none => exact hwrites
      | some r => exact confined_pure ()

/-! ### Runs -/

/-- What a live computation does after it has found no row. -/
private def askTicks (env : Env) (timestamp : ℕ) (pair timeframe : String) : Prog Unit := do
  let time := normalizeBlockTime timestamp timeframe
  let ohlc ← Session.query .default fun db =>
    transformTickToOhlc env db pair timeframe (time - seconds timeframe) time
  match ohlc with
  | row :: _ => Table.upsert .default (.ohlc pair timeframe time) fun _ => row
  | [] => pure ()

/-- Where a live computation can be: about to look for the row, about to read the ticks, or left
with statements that keep the meaning. -/
structure OhlcStrand.Sound (env : Env) (hist : PriceHistory) (a : OhlcStrand) : Prop where
  positive : 0 < seconds a.timeframe
  looking : a.steps = 0 → a.rest = indexOhlc env .default a.timestamp a.pair a.timeframe
  asking : a.steps = 1 → a.rest = .pure () ∨ a.rest = askTicks env a.timestamp a.pair a.timeframe
  writing : 2 ≤ a.steps → Confined (KeepsMeaning hist) a.rest

/-- The invariant of the runs. -/
structure CandleJobs.Sound (env : Env) (hist : PriceHistory) (s : CandleJobs) : Prop where
  rows : AllMean hist s.session.committed
  live : ∀ a ∈ s.live, a.Sound env hist
  historical : ∀ p ∈ s.historical, Confined (KeepsMeaning hist) p

private theorem filterMap_candle_pair (vs ws : List ℚ) :
    [vs, ws].filterMap candle = (candle vs).toList ++ (candle ws).toList := by
  rw [List.filterMap_cons, List.filterMap_cons, List.filterMap_nil]
  cases candle vs <;> cases candle ws <;> rfl

/-- What the query returns at the time of a candle. -/
private theorem transformTickToOhlc_window {s : CandleJobs} {a : OhlcStrand}
    (hs : 0 < seconds a.timeframe) :
    transformTickToOhlc env s.session.committed a.pair a.timeframe (a.time - seconds a.timeframe)
      a.time = env.rowOrder ((s.groups a).filterMap candle) := by
  have hdvd : seconds a.timeframe ∣ a.time := by
    have hsec : (intervalToSecond a.timeframe).getD 1 = seconds a.timeframe := by
      rw [seconds] at hs ⊢
      cases hi : intervalToSecond a.timeframe with
      | none => simp [hi] at hs
      | some n => rfl
    rw [OhlcStrand.time, normalizeBlockTime, hsec]
    exact Nat.dvd_sub_mod a.timestamp
  refine congrArg env.rowOrder ((candles_window _ hs hdvd).trans ?_)
  exact (filterMap_candle_pair _ _).symm

/-- The row that comes first is the candle of one of the groups. -/
private theorem group_of_head {s : CandleJobs} {a : OhlcStrand} {row : OhlcRow}
    (h : (env.rowOrder ((s.groups a).filterMap candle)).head? = some row) :
    ∃ group ∈ s.groups a, candle group = some row := by
  have hmem : row ∈ (s.groups a).filterMap candle :=
    (env.rowOrder_perm _).mem_iff.mp (List.mem_of_mem_head? h)
  exact List.mem_filterMap.mp hmem

/-- The first group of the window and the rest of the query's answer. -/
private theorem askTicks_cases {s : CandleJobs} {a : OhlcStrand} (hs : 0 < seconds a.timeframe)
    {u : DBSession → DBSession} {n : DBSession → Prog Unit}
    (ha : askTicks env a.timestamp a.pair a.timeframe = .step u n) :
    u = id ∧ n s.session =
      match (env.rowOrder ((s.groups a).filterMap candle)).head? with
      | some row => Table.upsert .default (.ohlc a.pair a.timeframe a.time) fun _ => row
      | none => .pure () := by
  obtain ⟨hu, hn⟩ := Async.step.inj ha
  refine ⟨hu.symm, ?_⟩
  rw [← transformTickToOhlc_window hs, ← hn]
  change (match transformTickToOhlc env s.session.committed a.pair a.timeframe
      (a.time - seconds a.timeframe) a.time with
    | row :: _ => _
    | [] => _) = _
  cases transformTickToOhlc env s.session.committed a.pair a.timeframe
      (a.time - seconds a.timeframe) a.time with
  | nil => rfl
  | cons row rest => rfl

/-- **One step of a live computation.** -/
private theorem sound_advance_strand {s : CandleJobs} {i : ℕ} {a : OhlcStrand}
    {u : DBSession → DBSession} {n : DBSession → Prog Unit} (h : a.Sound env hist)
    (hi : s.live[i]? = some a) (ha : a.rest = .step u n)
    (hok : s.Undistorted env hist (.advance i)) :
    Sends (KeepsMeaning hist) u ∧
      OhlcStrand.Sound env hist { a with steps := a.steps + 1, rest := n s.session } := by
  -- It looks for the row, asks for the ticks, and then only writes.
  obtain hzero | hone | htwo : a.steps = 0 ∨ a.steps = 1 ∨ 2 ≤ a.steps := by omega
  · have hlook := h.looking hzero
    rw [ha] at hlook
    obtain ⟨rfl, rfl⟩ := Async.step.inj hlook
    refine ⟨.inl rfl, h.positive, fun hc => ?_, fun _ => ?_, fun hc => ?_⟩
    · exact absurd hc (Nat.succ_ne_zero a.steps)
    · by_cases hrow : (s.session.committed.get (.ohlc a.pair a.timeframe a.time)).isSome
      · exact .inl (if_pos hrow)
      · exact .inr (if_neg hrow)
    · simp only at hc
      omega
  · obtain hask | hask := h.asking hone
    · rw [ha] at hask
      cases hask
    rw [ha] at hask
    obtain ⟨rfl, hn⟩ := askTicks_cases (s := s) h.positive hask.symm
    refine ⟨.inl rfl, h.positive, fun hc => ?_, fun hc => ?_, fun _ => ?_⟩
    · exact absurd hc (Nat.succ_ne_zero a.steps)
    · simp only at hc
      omega
    · rw [hn]
      split
      · rename_i row hrow
        obtain ⟨group, hgroup, hcandle⟩ := group_of_head hrow
        have hcourse := hok a hi hone group hgroup (by rintro rfl; simp [candle] at hcandle)
          (hrow.trans hcandle.symm)
        exact confined_exec (keepsMeaning_upsertRow
          ((candle_eq_iff.mpr hcourse).symm.trans hcandle) _)
      · exact confined_pure ()
  · have hconf : Confined (KeepsMeaning hist) (.step u n) := ha ▸ h.writing htwo
    refine ⟨hconf.1, h.positive, fun hc => ?_, fun hc => ?_, fun _ => hconf.2 s.session⟩
    · exact absurd hc (Nat.succ_ne_zero a.steps)
    · simp only at hc
      omega

/-- **One step of the jobs.** -/
private theorem sound_candleStep {s s' : CandleJobs} {act : CandleAction} (h : s.Sound env hist)
    (hok : s.Undistorted env hist act) (hstep : CandleStep env hist s act s') :
    s'.Sound env hist := by
  cases hstep with
  | startLive pair timeframe timestamp hs =>
    refine ⟨h.rows, fun a ha => ?_, h.historical⟩
    rcases List.mem_cons.mp ha with rfl | ha
    · exact ⟨hs, fun _ => rfl, fun hc => absurd hc Nat.zero_ne_one,
        fun hc => absurd hc (Nat.not_succ_le_zero 1)⟩
    · exact h.live a ha
  | @advance a u n i hi ha =>
    obtain ⟨hsends, hsound⟩ :=
      sound_advance_strand (h.live a (List.mem_of_getElem? hi)) hi ha hok
    refine ⟨allMean_sends hsends h.rows, fun b hb => ?_, h.historical⟩
    rcases List.mem_or_eq_of_mem_set hb with hb | rfl
    · exact h.live b hb
    · exact hsound
  | startHistorical order market timeframe lo hi now hs hm =>
    refine ⟨h.rows, h.live, fun p hp => ?_⟩
    rcases List.mem_cons.mp hp with rfl | hp
    · exact confined_historical order fun klyCandles hc c hcmem =>
        (hm klyCandles hc c hcmem).means_iff.mpr (hok klyCandles hc c hcmem)
    · exact h.historical p hp
  | @advanceHistorical u n i hi =>
    have hconf := h.historical _ (List.mem_of_getElem? hi)
    refine ⟨allMean_sends hconf.1 h.rows, h.live, fun p hp => ?_⟩
    rcases List.mem_or_eq_of_mem_set hp with hp | rfl
    · exact h.historical p hp
    · exact hconf.2 s.session
  | other w hticks hohlc =>
    refine ⟨fun pair timeframe time row hrow => ?_, h.live, h.historical⟩
    rcases hohlc pair timeframe time with hnone | hsame
    · rw [hnone] at hrow
      exact absurd hrow (Option.some_ne_none row).symm
    · exact h.rows pair timeframe time row (hsame ▸ hrow)

/-- A computation that reads the wrong group goes on to write a row without its meaning. -/
private theorem misleading_advance {s s' : CandleJobs} (h : s.Sound env hist) {i : ℕ}
    (hstep : CandleStep env hist s (.advance i) s')
    (hok : ¬ s.Undistorted env hist (.advance i)) :
    ∃ t, Run (CandleStep env hist) Unrestricted s' t ∧ ¬ AllMean hist t.session.committed := by
  obtain @⟨_, _, _⟩ | @⟨a, u, n, _, hi, ha⟩ := hstep
  simp only [CandleJobs.Undistorted, not_forall] at hok
  obtain ⟨b, hb, hone, group, -, hne, hhead, hwrong⟩ := hok
  obtain rfl : a = b := Option.some.inj (hi.symm.trans hb)
  have hsound := h.live a (List.mem_of_getElem? hi)
  obtain hask | hask := hsound.asking hone
  · rw [ha] at hask
    cases hask
  rw [ha] at hask
  obtain ⟨rfl, hn⟩ := askTicks_cases (s := s) hsound.positive hask.symm
  obtain ⟨v, vs, rfl⟩ := List.exists_cons_of_ne_nil hne
  rw [hhead] at hn
  have hlt : i < s.live.length := (List.getElem?_eq_some_iff.mp hi).1
  refine ⟨_, Run.refl.tail (.advance i (List.getElem?_set_self hlt) (by exact hn)) trivial,
    fun hall => hwrong (candle_eq_iff.mp (Eq.symm ?_))⟩
  refine hall a.pair a.timeframe a.time _ ?_
  exact Table.upsertRow_act_self (ρ := Row) (.ohlc a.pair a.timeframe a.time) (fun _ => _) _

/-- The first historical job runs to its end. -/
private theorem run_historical (p : Prog Unit) :
    ∀ (s : CandleJobs) (rest : List (Prog Unit)), s.historical = p :: rest →
      ∃ t, Run (CandleStep env hist) Unrestricted s t ∧ t.session = (p.run s.session).2 := by
  induction p with
  | pure a => exact fun s _ _ => ⟨s, .refl, rfl⟩
  | throw e => exact fun s _ _ => ⟨s, .refl, rfl⟩
  | step u n ih =>
    intro s rest hs
    obtain ⟨t, hrun, ht⟩ := ih s.session
      { s with session := u s.session, historical := n s.session :: rest } rest rfl
    refine ⟨t, ?_, ht⟩
    have hfirst : CandleStep env hist s .advanceHistorical
        { s with session := u s.session, historical := s.historical.set 0 (n s.session) } :=
      .advanceHistorical 0 (by rw [hs]; rfl)
    rw [hs] at hfirst
    exact (Run.refl.tail hfirst trivial).trans hrun

/-- A candle of a batch is written. -/
private def upsertCandle (timeframe : String) (c : Candle) : Prog Unit :=
  Table.upsert .default (.ohlc "klyusd" timeframe c.start) fun _ => c.ohlc

private def FromBatch (timeframe : String) (klyCandles : List Candle) (w : DBSession) : Prop :=
  ∀ t row, w.committed.get (.ohlc "klyusd" timeframe t) = some row →
    ∃ c ∈ klyCandles, c.start = t ∧ row = c.ohlc

private def Written (timeframe : String) (t : ℕ) (w : DBSession) : Prop :=
  (w.committed.get (.ohlc "klyusd" timeframe t)).isSome

private theorem meets_upsertCandle {timeframe : String} {klyCandles : List Candle} {c : Candle}
    (hc : c ∈ klyCandles) : (upsertCandle timeframe c).Meets (FromBatch timeframe klyCandles)
      (Written timeframe) ∅ {c.start} := by
  refine Async.meets_act fun w hw _ => ?_
  have hself : (send .default
      (Table.upsertRow (.ohlc "klyusd" timeframe c.start) fun _ => c.ohlc : Stmt) w).committed.get
        (.ohlc "klyusd" timeframe c.start) = some c.ohlc :=
    Table.upsertRow_act_self (ρ := Row) (.ohlc "klyusd" timeframe c.start) (fun _ => c.ohlc) _
  have hother : ∀ t ≠ c.start, (send .default
      (Table.upsertRow (.ohlc "klyusd" timeframe c.start) fun _ => c.ohlc : Stmt) w).committed.get
        (.ohlc "klyusd" timeframe t) = w.committed.get (.ohlc "klyusd" timeframe t) :=
    fun t ht => (sameAt_send (Table.upsertRow_fixes (by simpa using ht)) w).1
  refine ⟨fun t row hrow => ?_, fun t hsome => ?_, ?_⟩
  · by_cases ht : t = c.start
    · subst ht
      exact ⟨c, hc, rfl, Option.some.inj (hrow.symm.trans hself)⟩
    · exact hw t row ((hother t ht).symm.trans hrow)
  · by_cases ht : t = c.start
    · subst ht
      exact Option.isSome_of_eq_some hself
    · exact (congrArg Option.isSome (hother t ht)).trans hsome
  · rintro t rfl
    exact Option.isSome_of_eq_some hself

/-- Among empty tables, the rows that a batch leaves are those of its candles. -/
private theorem run_batch (order : List ℕ) {market : Market} {timeframe : String} {lo hi : ℕ}
    {klyCandles : List Candle} (hm : market timeframe lo hi = some klyCandles) {c : Candle}
    (hc : c ∈ klyCandles) :
    ∃ c' ∈ klyCandles, c'.start = c.start ∧
      (((indexPreviousKLYUSDOhlcPrice order market timeframe lo hi).run
        (ofStore .empty)).2.committed.get (.ohlc "klyusd" timeframe c.start)) = some c'.ohlc := by
  have hprog : (indexPreviousKLYUSDOhlcPrice order market timeframe lo hi).run (ofStore .empty) =
      (Async.interleave order (klyCandles.map (upsertCandle timeframe))).run (ofStore .empty) := by
    rw [indexPreviousKLYUSDOhlcPrice, getKLYUSDCandles, hm, Async.ofOption_some, Async.pure_bind']
    cases klyCandles with
    | nil => rfl
    | cons c cs => rfl
  have hmeets : (Async.interleave order (klyCandles.map (upsertCandle timeframe))).Meets
      (FromBatch timeframe klyCandles) (Written timeframe) ∅ {c.start} := by
    refine Async.Meets.interleave order (fun p hp => ?_) fun t ht => ?_
    · obtain ⟨c, hc, rfl⟩ := List.mem_map.mp hp
      exact (meets_upsertCandle hc).mono (Set.Subset.refl _) (Set.empty_subset _)
    · obtain rfl := Set.mem_singleton_iff.mp ht
      exact .inr ⟨upsertCandle timeframe c, List.mem_map_of_mem hc, meets_upsertCandle hc⟩
  have hempty : FromBatch timeframe klyCandles (ofStore .empty) :=
    fun t row hrow => absurd hrow (Option.some_ne_none row).symm
  obtain ⟨⟨⟩, w, hrun, hw, hgoal⟩ := hmeets.run hempty fun _ h => absurd h (Set.notMem_empty _)
  rw [hprog, hrun]
  obtain ⟨row, hrow⟩ := Option.isSome_iff_exists.mp (hgoal c.start rfl)
  obtain ⟨c', hc', hstart, rfl⟩ := hw c.start row hrow
  exact ⟨c', hc', hstart, hrow⟩

/-- A batch with a candle that is not what its timeframe comes to writes its row, if need be once
the tables have been cleared. -/
private theorem misleading_startHistorical {s s' : CandleJobs} {timeframe : String} {now : ℕ}
    {answer : Option (List Candle)}
    (hstep : CandleStep env hist s (.startHistorical timeframe now answer) s')
    (hok : ¬ s.Undistorted env hist (.startHistorical timeframe now answer)) :
    ∃ t, Run (CandleStep env hist) Unrestricted s' t ∧ ¬ AllMean hist t.session.committed := by
  cases hstep with
  | startHistorical order market _ lo hi _ hs hm =>
  simp only [CandleJobs.Undistorted, not_forall] at hok
  obtain ⟨klyCandles, hanswer, c, hc, hwrong⟩ := hok
  obtain ⟨t, hrun, ht⟩ := run_historical
    (indexPreviousKLYUSDOhlcPrice order market timeframe lo hi)
    ⟨ofStore .empty, s.live,
      indexPreviousKLYUSDOhlcPrice order market timeframe lo hi :: s.historical⟩ s.historical rfl
  obtain ⟨c', hc', hstart, hrow⟩ := run_batch order hanswer hc
  refine ⟨t, (Run.refl.tail (.other (ofStore .empty) (fun _ _ r hr =>
    absurd hr (Option.some_ne_none r).symm) fun _ _ _ => .inl rfl) trivial).trans hrun,
    fun hall => hwrong ?_⟩
  have hmeans : Means hist "klyusd" timeframe c'.start c'.ohlc := by
    refine hall "klyusd" timeframe c'.start c'.ohlc ?_
    rw [ht, hstart]
    exact hrow
  have hcourse := (hm klyCandles hanswer c' hc').means_iff.mp hmeans
  rwa [hstart] at hcourse

/-- A step for which the prices are not right goes on to a row without its meaning. -/
private theorem misleading {s s' : CandleJobs} (h : s.Sound env hist) {act : CandleAction}
    (hstep : CandleStep env hist s act s') (hok : ¬ s.Undistorted env hist act) :
    ∃ t, Run (CandleStep env hist) Unrestricted s' t ∧ ¬ AllMean hist t.session.committed := by
  cases act with
  | advance i => exact misleading_advance h hstep hok
  | startHistorical timeframe now answer => exact misleading_startHistorical hstep hok
  | startLive => exact absurd trivial hok
  | advanceHistorical => exact absurd trivial hok
  | other => exact absurd trivial hok

variable {session : DBSession} {s : CandleJobs}

/-- **The meaning of OHLC rows.** In a run in which it does not matter which prices are read, every
row of every OHLC table stands for the timeframe that begins at its time; a step for which it does
goes on to a row that stands for something else. -/
theorem candles_mean (hrows : AllMean hist session.committed)
    (hrun : Run (CandleStep env hist) (CandleJobs.Undistorted env hist) (.idle session) s) :
    AllMean hist s.session.committed ∧ ∀ act s', CandleStep env hist s act s' →
      ¬ s.Undistorted env hist act →
      ∃ t, Run (CandleStep env hist) Unrestricted s' t ∧
        ¬ AllMean hist t.session.committed := by
  have hidle : (CandleJobs.idle session).Sound env hist :=
    ⟨hrows, fun _ ha => absurd ha List.not_mem_nil, fun _ hp => absurd hp List.not_mem_nil⟩
  have hsound : s.Sound env hist :=
    hrun.invariant (CandleJobs.Sound env hist) hidle fun _ _ _ => sound_candleStep
  exact ⟨hsound.rows, fun act s' => misleading hsound⟩

end Meaning

/-! ### Two minutes -/

/-- A price at the first minute and one at the second. -/
def twoPrices (first second : ℚ) : PriceHistory := fun pair t =>
  if pair = "klyusd" then (if t = 60 then some first else if t = 120 then some second else none)
  else none

/-- Their tick rows. -/
def twoTicks (first second : ℚ) : DB :=
  (Write.all [Table.upsertRow (.tickPrice "klyusd" 60) fun _ => ⟨toDecimal first⟩,
    Table.upsertRow (.tickPrice "klyusd" 120) fun _ => ⟨toDecimal second⟩] : Stmt).exec .empty

/-- One live computation for the second minute, and nothing else. -/
private def oneStrand (w : DBSession) (steps : ℕ) (rest : Prog Unit) : CandleJobs :=
  ⟨w, [⟨"klyusd", "1m", 120, steps, rest⟩], []⟩

private theorem undistorted_oneStrand {env : Env} {hist : PriceHistory} {w : DBSession} {steps : ℕ}
    {rest : Prog Unit} (h : steps ≠ 1) :
    (oneStrand w steps rest).Undistorted env hist (.advance 0) := by
  intro a ha hone
  obtain rfl := Option.some.inj ha
  exact absurd hone h

private theorem step_oneStrand {env : Env} {hist : PriceHistory} {w : DBSession} {steps : ℕ}
    {u : DBSession → DBSession} {n : DBSession → Prog Unit} :
    CandleStep env hist (oneStrand w steps (.step u n)) (.advance 0)
      (oneStrand (u w) (steps + 1) (n w)) :=
  @CandleStep.advance env hist (oneStrand w steps (.step u n))
    ⟨"klyusd", "1m", 120, steps, .step u n⟩ u n 0 rfl rfl

private theorem groups_oneStrand {w : DBSession} {steps k : ℕ} {rest rest' : Prog Unit} :
    (oneStrand w steps rest).groups ⟨"klyusd", "1m", 120, k, rest'⟩ =
      [valuesOver (CandleJobs.ticks (.idle w) "klyusd") 60 120,
        valuesOver (CandleJobs.ticks (.idle w) "klyusd") 120 121] := by
  have htime : normalizeBlockTime 120 "1m" = 120 := by decide
  have hlo : 120 - seconds "1m" = 60 := by decide
  simp only [CandleJobs.groups, OhlcStrand.time, htime, hlo]
  rfl

/-- The live computation takes the first minute for the second. -/
private theorem run_twoTicks {first second : ℚ} {row : OhlcRow}
    (hfirst : candleOver (CandleJobs.ticks (.idle (.ofStore (twoTicks first second))) "klyusd")
      60 120 = some row) {ok : CandleJobs → CandleAction → Prop}
    (hstart : ∀ s, ok s .startLive)
    (hok : ∀ w steps rest, steps ≠ 1 → ok (oneStrand w steps rest) (.advance 0))
    (hask : ok (oneStrand (.ofStore (twoTicks first second)) 1
      (askTicks default 120 "klyusd" "1m")) (.advance 0)) :
    ∃ s, Run (CandleStep default (twoPrices first second)) ok
        (.idle (.ofStore (twoTicks first second))) s ∧
      s.session.committed.get (.ohlc "klyusd" "1m" 120) = some row := by
  let w : DBSession := .ofStore (twoTicks first second)
  let a : OhlcStrand := ⟨"klyusd", "1m", 120, 1, askTicks default 120 "klyusd" "1m"⟩
  let upsert : Prog Unit := Table.upsert .default (.ohlc "klyusd" "1m" 120) fun _ => row
  have hlook : CandleStep default (twoPrices first second)
      (oneStrand w 0 (indexOhlc default .default 120 "klyusd" "1m")) (.advance 0)
      (oneStrand w 1 a.rest) := step_oneStrand
  have hread : CandleStep default (twoPrices first second)
      (oneStrand w 1 a.rest) (.advance 0) (oneStrand w 2 upsert) := by
    obtain ⟨u, n, ha⟩ : ∃ u n, a.rest = .step u n := ⟨_, _, rfl⟩
    obtain ⟨rfl, hn⟩ := askTicks_cases (s := oneStrand w 1 a.rest) (a := a) (by decide) ha
    have htime : a.time = 120 := by decide
    have hgroups : (oneStrand w 1 a.rest).groups a = _ := groups_oneStrand
    have hprev : candle (valuesOver (CandleJobs.ticks (.idle w) "klyusd") 60 120) = some row :=
      hfirst
    have hn' : n w = upsert := by
      rw [hgroups, filterMap_candle_pair, hprev, htime] at hn
      exact hn
    have hstep : CandleStep default (twoPrices first second) (oneStrand w 1 (.step id n))
        (.advance 0) (oneStrand w 2 (n w)) := step_oneStrand
    rwa [hn', ← ha] at hstep
  have hwrite : CandleStep default (twoPrices first second) (oneStrand w 2 upsert) (.advance 0)
      (oneStrand (send .default (Table.upsertRow (.ohlc "klyusd" "1m" 120) fun _ => row) w) 3
        (.pure ())) := step_oneStrand
  refine ⟨_, Run.refl.tail (.startLive "klyusd" "1m" 120 (by decide)) (hstart _)
    |>.tail hlook (hok w 0 _ Nat.zero_ne_one) |>.tail hread hask
    |>.tail hwrite (hok w 2 upsert (by decide)), ?_⟩
  rw [oneStrand, send_default_committed, Write.exec_get, Table.upsertRow_act_self]

private theorem ticks_twoTicks {first second : ℚ} {pair : String} {t : ℕ} {r : TickPriceRow}
    (h : (twoTicks first second).get (.tickPrice pair t) = some r) :
    (twoPrices first second).stored pair t = some r.value := by
  by_cases hfirst : Cell.tickPrice pair t = .tickPrice "klyusd" 60
  · obtain ⟨rfl, rfl⟩ := Cell.tickPrice.inj hfirst
    obtain rfl : ⟨toDecimal first⟩ = r := Option.some.inj h
    rfl
  by_cases hsecond : Cell.tickPrice pair t = .tickPrice "klyusd" 120
  · obtain ⟨rfl, rfl⟩ := Cell.tickPrice.inj hsecond
    obtain rfl : ⟨toDecimal second⟩ = r := Option.some.inj h
    rfl
  have hnone : (twoTicks first second).get (.tickPrice pair t) = none := by
    have hfixes : (Write.all [Table.upsertRow (.tickPrice "klyusd" 60) fun _ => ⟨toDecimal first⟩,
        Table.upsertRow (.tickPrice "klyusd" 120) fun _ => ⟨toDecimal second⟩] : Stmt).Fixes
        (.tickPrice pair t) := by
      refine Write.all_fixes fun st hst => ?_
      rcases List.mem_pair.mp hst with rfl | rfl
      · exact Table.upsertRow_fixes hfirst
      · exact Table.upsertRow_fixes hsecond
    exact hfixes none
  rw [hnone] at h
  exact absurd h (Option.some_ne_none r).symm

private theorem allMean_twoTicks (hist : PriceHistory) (first second : ℚ) :
    AllMean hist (twoTicks first second) := by
  intro pair timeframe time row hrow
  exact absurd hrow (Option.some_ne_none row).symm

/-- The price doubles: the live row of the second minute holds the price of the first. -/
theorem live_row_is_previous :
    ¬ ∀ (env : Env) (hist : PriceHistory) (session : DBSession) (s : CandleJobs),
      (∀ pair t r, session.committed.get (.tickPrice pair t) = some r →
        hist.stored pair t = some r.value) →
      AllMean hist session.committed →
      Run (CandleStep env hist) Unrestricted (.idle session) s →
      AllMean hist s.session.committed := by
  intro h
  have hfirst : candleOver (CandleJobs.ticks (.idle (.ofStore (twoTicks 1 2))) "klyusd") 60 120 =
      some ⟨1, 1, 1, 1⟩ := by decide +kernel
  obtain ⟨s, hrun, hrow⟩ := @run_twoTicks 1 2 _ hfirst Unrestricted (fun _ => trivial)
    (fun _ _ _ _ => trivial) trivial
  have hmeans := h _ _ _ s ?_ (allMean_twoTicks _ 1 2) hrun _ _ _ _ hrow
  · have hright : candleOver ((twoPrices 1 2).stored "klyusd") 120 (120 + seconds "1m") =
        some ⟨2, 2, 2, 2⟩ := by decide +kernel
    rw [Means, hright] at hmeans
    exact absurd hmeans (by decide +kernel)
  · exact fun pair t r => ticks_twoTicks

/-- A constant price: the row of the first minute is also right for the second. -/
theorem candles_mean_constant :
    ∃ s, Run (CandleStep default (twoPrices 1 1)) (CandleJobs.Undistorted default (twoPrices 1 1))
        (.idle (.ofStore (twoTicks 1 1))) s ∧
      s.session.committed.get (.ohlc "klyusd" "1m" 120) = some ⟨1, 1, 1, 1⟩ ∧
      AllMean (twoPrices 1 1) s.session.committed := by
  have hfirst : candleOver (CandleJobs.ticks (.idle (.ofStore (twoTicks 1 1))) "klyusd") 60 120 =
      some ⟨1, 1, 1, 1⟩ := by decide +kernel
  have hask : (oneStrand (.ofStore (twoTicks 1 1)) 1
      (askTicks default 120 "klyusd" "1m")).Undistorted default (twoPrices 1 1) (.advance 0) := by
    intro a ha _ group hgroup _ _
    obtain rfl := Option.some.inj ha
    have htime : normalizeBlockTime 120 "1m" = 120 := by decide
    have hhi : 120 + seconds "1m" = 180 := by decide
    have hright : valuesOver ((twoPrices 1 1).stored "klyusd") 120 180 = [1] := by decide +kernel
    have hticks : valuesOver (CandleJobs.ticks (.idle (.ofStore (twoTicks 1 1))) "klyusd") 60 120 =
        [1] ∧ valuesOver (CandleJobs.ticks (.idle (.ofStore (twoTicks 1 1))) "klyusd") 120 121 =
        [1] := by
      constructor
      · decide +kernel
      · decide +kernel
    simp only [groups_oneStrand, hticks] at hgroup
    simp only [OhlcStrand.time, htime, hhi, hright]
    obtain rfl : group = [1] := by simpa using hgroup
    exact candle_eq_iff.mp rfl
  obtain ⟨s, hrun, hrow⟩ := run_twoTicks hfirst (fun _ => trivial)
    (fun _ _ _ h => undistorted_oneStrand h) hask
  exact ⟨s, hrun, hrow, (candles_mean (allMean_twoTicks _ 1 1) hrun).1⟩

end SwaptoshiService
