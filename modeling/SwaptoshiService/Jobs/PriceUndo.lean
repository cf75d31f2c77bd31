import SwaptoshiService.Lib.Settle
import SwaptoshiService.Lib.Timeline
import SwaptoshiService.Indexer.IndexBlock
import SwaptoshiService.Indexer.KlyusdPrices

/-!
# The price rows of a block under undo

`addPriceIndex` inserts at most one tick and one candle for each pair, at the **normalised** times
of the block, and only where there is none yet; the tokens are processed concurrently. The job that
it enqueues does the same for the pair `klyusd` with the price of the market.
`deletePriceIndex` drops the rows of the tokens **after** the normalised times. The row that the
block itself brought stays, and rows that other blocks brought for later times go; `klyusd` rows
are never dropped.

`prices_undone_iff` says exactly for which tables and prices a block that is indexed and deleted
leaves no trace once another block is indexed in its place.
-/

namespace SwaptoshiService

open Session

/-! ### Pairs and their rows -/

/-- The pair of a token with the KLY token, if both are registered. -/
def pairOf (env : Env) (db : DB) (t : TokenID) : Option String :=
  match (db.get (.token t) : Option TokenRow),
    (db.get (.token env.klyTokenID) : Option TokenRow) with
  | some base, some quote => some (base.symbol ++ quote.symbol).toLower
  | _, _ => none

/-- The pair is that of a registered token. -/
def Priced (env : Env) (db : DB) (pair : String) : Prop :=
  ∃ t, t ≠ env.klyTokenID ∧ pairOf env db t = some pair

/-- The pair is one whose rows `deletePriceIndex` drops; the quote symbol is spelled out there. -/
def Cleared (db : DB) (pair : String) : Prop :=
  ∃ t r, db.get (.token t) = some r ∧ r.symbol.toLower ++ "kly" = pair

/-- The prices of the pairs while a block is indexed. -/
def Env.Quotes (env : Env) (price : String → ℚ) : Prop :=
  ∀ db t pair, t ≠ env.klyTokenID → pairOf env db t = some pair →
    env.getPrice db t env.klyTokenID = price pair

/-- The market answers the request for the price of a time. -/
def Market.Answers (market : Market) (time : ℕ) : Prop := (market "1m" time time).isSome

/-- The price of `klyusd` while the job of a block runs; 0 stands for no price. -/
def Market.Quotes (market : Market) (time : ℕ) (price : String → ℚ) : Prop :=
  ∀ klyCandles, market "1m" time time = some klyCandles →
    (klyCandles.head?.map (·.open)).getD 0 = price "klyusd"

/-- The prices of the pairs while a block is indexed and its job runs. -/
structure PricedAt (env : Env) (market : Market) (timestamp : ℕ) (price : String → ℚ) : Prop where
  tokens : env.Quotes price
  klyusd : market.Quotes (normalizeBlockTime timestamp env.tickTimeframe) price

/-- The pair is one that a block brings rows for: that of a registered token or, under a
condition, `klyusd`. -/
def Listed (env : Env) (db : DB) (usd : Prop) (pair : String) : Prop :=
  Priced env db pair ∨ pair = "klyusd" ∧ usd

/-- The ticks of a pair by time. -/
def ticksOf (db : DB) (pair : String) (t : ℕ) : Option TickPriceRow := db.get (.tickPrice pair t)

/-- The candles of a pair by time. -/
def candlesOf (db : DB) (pair timeframe : String) (t : ℕ) : Option OhlcRow :=
  db.get (.ohlc pair timeframe t)

/-- The candle that is written for a time. -/
def candleAt (env : Env) (ticks : ℕ → Option TickPriceRow) (timeframe : String) (time : ℕ) :
    Option OhlcRow :=
  (env.rowOrder (candles ticks ((intervalToSecond timeframe).getD 0)
    (time - (intervalToSecond timeframe).getD 0) time)).head?

/-- Tables after the price index of a block was added and the job that it enqueues is done. Only
this job and its like touch the `klyusd` rows, and the queue runs them one after the other, so that
the moment at which it runs does not matter. -/
def addPrices (env : Env) (order : List ℕ) (market : Market) (header : BlockHeader) (db : DB) :
    DB :=
  ((indexCurrentKLYUSDPrice env order market header.timestamp).run
    (ofStore (transact none outsideFailure (addPriceIndex env header) db).2)).2.committed

/-- Tables after the price index of a block was deleted. -/
def deletePrices (env : Env) (header : BlockHeader) (db : DB) : DB :=
  (transact none outsideFailure (deletePriceIndex env header) db).2

section Rows

open Classical

variable (env : Env) (market : Market) (price : String → ℚ) (timestamp : ℕ) (db : DB)
  (pair : String)

/-- The tick that a block brings for a pair. -/
noncomputable def tickOf : Option TickPriceRow :=
  if Listed env db (market.Answers (normalizeBlockTime timestamp env.tickTimeframe)) pair ∧
      price pair ≠ 0 then
    some ⟨toDecimal (price pair)⟩
  else none

/-- The ticks of a pair with that of a block. -/
noncomputable def ticksWith : ℕ → Option TickPriceRow :=
  insertAt (normalizeBlockTime timestamp env.tickTimeframe)
    (tickOf env market price timestamp db pair) (ticksOf db pair)

/-- The candle that a block brings for a pair and a timeframe. The job for `klyusd` gets that far
if the market answers or there is nothing to ask it. -/
noncomputable def candleOf (timeframe : String) : Option OhlcRow :=
  if Listed env db (market.Answers (normalizeBlockTime timestamp env.tickTimeframe) ∨
      (ticksOf db pair (normalizeBlockTime timestamp env.tickTimeframe)).isSome) pair then
    candleAt env (ticksWith env market price timestamp db pair) timeframe
      (normalizeBlockTime timestamp timeframe)
  else none

/-- The candles of a pair with that of a block. -/
noncomputable def candlesWith (timeframe : String) : ℕ → Option OhlcRow :=
  if timeframe ∈ env.ohlcTimeframes then
    insertAt (normalizeBlockTime timestamp timeframe)
      (candleOf env market price timestamp db pair timeframe) (candlesOf db pair timeframe)
  else candlesOf db pair timeframe

end Rows

/-- The rows that indexing a block leads to. -/
noncomputable def pricesWith (env : Env) (market : Market) (price : String → ℚ) (timestamp : ℕ)
    (db : DB) : (c : Cell) → Option (Row c)
  | .tickPrice pair t => ticksWith env market price timestamp db pair t
  | .ohlc pair timeframe t => candlesWith env market price timestamp db pair timeframe t
  | c => db.get c

/-! ### Parts of both functions -/

section Parts

variable {env : Env} {db : DB} {t : TokenID} {pair : String} {X Y : Set Cell}
  {I : DBSession → Prop} {G : Cell → DBSession → Prop}

/-- The last prices are not looked at. -/
private theorem meets_updateLastPrice {conn : Conn}
    (h : ∀ w r, I w → I (send conn (Table.upsertRow (.lastPrice t) fun _ => r) w) ∧
      ∀ c, G c w → G c (send conn (Table.upsertRow (.lastPrice t) fun _ => r) w)) {time : ℕ} :
    (updateLastPrice env conn t pair time).Meets I G X X := by
  have hupsert : ∀ (X : Set Cell) (r : LastPriceRow),
      (Table.upsert conn (.lastPrice t) (fun _ => r) : Prog Unit).Meets I G X X :=
    fun X r => Async.meets_act fun w hw hgoals =>
      ⟨(h w r hw).1, (h w r hw).2, fun c hc => (h w r hw).2 c (hgoals c hc)⟩
  refine Async.meets_read_bind fun w _ hgoals => ?_
  split
  · exact hgoals
  refine Async.meets_read_bind fun w' _ hgoals' => ?_
  split
  · exact (hupsert _ _).mono (Set.Subset.refl _) fun c hc => hgoals' c (hgoals c hc)
  · exact fun c hc => hgoals' c (hgoals c hc)

private theorem meets_withPair {k : String → Prog Unit}
    (htoken : ∀ w, I w → ∀ t, w.committed.get (.token t) = db.get (.token t))
    (hsome : ∀ pair, pairOf env db t = some pair → (k pair).Meets I G X Y)
    (hnone : pairOf env db t = none → Y ⊆ X) :
    (withPair t env.klyTokenID k).Meets I G X Y := by
  refine Async.meets_read_bind fun w hw hgoals => Async.meets_read_bind fun w' hw' hgoals' => ?_
  have hX : X ⊆ {c | G c w'} := fun c hc => hgoals' c (hgoals c hc)
  simp only [view, htoken w hw, htoken w' hw']
  cases hb : (db.get (.token t) : Option TokenRow) with
  | none => exact (hnone (by simp [pairOf, hb])).trans hX
  | some b =>
    cases hq : (db.get (.token env.klyTokenID) : Option TokenRow) with
    | none => exact (hnone (by simp [pairOf, hb, hq])).trans hX
    | some q => exact (hsome _ (by simp [pairOf, hb, hq])).mono hX (Set.Subset.refl Y)

private theorem meets_indexTokenLastPrice {conn : Conn} {timestamp : ℕ}
    (htoken : ∀ w, I w → ∀ t, w.committed.get (.token t) = db.get (.token t))
    (h : ∀ w r, I w → I (send conn (Table.upsertRow (.lastPrice t) fun _ => r) w) ∧
      ∀ c, G c w → G c (send conn (Table.upsertRow (.lastPrice t) fun _ => r) w)) :
    (indexTokenLastPrice env conn timestamp t env.klyTokenID).Meets I G X X := by
  rw [indexTokenLastPrice, if_neg (by simp)]
  exact meets_withPair htoken (fun pair _ => meets_updateLastPrice h) fun _ => Set.Subset.refl X

end Parts

/-! ### Adding the price index -/

section Add

variable {env : Env} {market : Market} {price : String → ℚ} {timestamp : ℕ} {db : DB}
  {w : DBSession} {t : TokenID}
  {pair timeframe : String} {X Y : Set Cell}

/-- Besides `last_price`, every row is the old one or the one that indexing leads to, and the
transaction changes none. -/
private def Underway (env : Env) (market : Market) (price : String → ℚ) (timestamp : ℕ) (db : DB)
    (w : DBSession) : Prop :=
  ∀ c : Cell, c.table ≠ .lastPrice → (∀ o, w.pending.act c o = o) ∧
    (w.committed.get c = db.get c ∨ w.committed.get c = pricesWith env market price timestamp db c)

/-- The row is the one that indexing leads to. -/
private def Settled (env : Env) (market : Market) (price : String → ℚ) (timestamp : ℕ) (db : DB)
    (c : Cell) (w : DBSession) : Prop :=
  c.table = .lastPrice ∨ w.committed.get c = pricesWith env market price timestamp db c

private theorem Underway.settled (h : Underway env market price timestamp db w) {c : Cell}
    (hc : pricesWith env market price timestamp db c = db.get c) :
    Settled env market price timestamp db c w := by
  by_cases ht : c.table = .lastPrice
  · exact .inl ht
  · rcases (h c ht).2 with hold | hnew
    · exact .inr (hold.trans hc.symm)
    · exact .inr hnew

private theorem Underway.token (h : Underway env market price timestamp db w) (t : TokenID) :
    w.committed.get (.token t) = db.get (.token t) := by
  have hsettled : Settled env market price timestamp db (.token t) w := h.settled rfl
  exact hsettled.resolve_left (by simp [Cell.table])

/-- A row that is there already is never replaced. -/
private theorem Underway.settled_of_isSome (h : Underway env market price timestamp db w) {c : Cell}
    (hkeep : (db.get c).isSome → pricesWith env market price timestamp db c = db.get c)
    (hc : (w.committed.get c).isSome) : Settled env market price timestamp db c w := by
  by_cases ht : c.table = .lastPrice
  · exact .inl ht
  · rcases (h c ht).2 with hold | hnew
    · exact h.settled (hkeep (hold ▸ hc))
    · exact .inr hnew

/-- A row that is not there was not there before. -/
private theorem Underway.get_of_none (h : Underway env market price timestamp db w) {c : Cell}
    (ht : c.table ≠ .lastPrice)
    (hkeep : (db.get c).isSome → pricesWith env market price timestamp db c = db.get c)
    (hc : w.committed.get c = none) : db.get c = none := by
  by_contra hne
  have hsome : (db.get c).isSome := Option.isSome_iff_ne_none.mpr hne
  rcases (h c ht).2 with hold | hnew
  · exact hne (hold.symm.trans hc)
  · exact hne ((hkeep hsome).symm.trans (hnew.symm.trans hc))

/-- Write a row that indexing leads to. -/
private theorem meets_upsert_row {c : Cell} [Inhabited (Row c)] {r : Row c}
    (hr : pricesWith env market price timestamp db c = some r) :
    (Table.upsert .default c (fun _ => r) : Prog Unit).Meets
      (Underway env market price timestamp db) (Settled env market price timestamp db) X {c} := by
  refine Async.meets_act fun w hw _ => ?_
  have hself : (send .default (Table.upsertRow c fun _ => r : Stmt) w).committed.get c =
      pricesWith env market price timestamp db c := by
    change (Table.upsertRow c fun _ => r : Stmt).act c (w.committed.get c) = _
    rw [hr, Table.upsertRow_act_self]
  have hother : ∀ c' ≠ c, SameAt c' w (send .default (Table.upsertRow c fun _ => r : Stmt) w) :=
    fun c' hc' => sameAt_send (Table.upsertRow_fixes hc') w
  refine ⟨fun c' hc' => ⟨(hw c' hc').1, ?_⟩, fun c' hc' => ?_, fun c' hc' => ?_⟩
  · by_cases hcc : c' = c
    · subst hcc
      exact .inr hself
    · rw [(hother c' hcc).1]
      exact (hw c' hc').2
  · by_cases hcc : c' = c
    · subst hcc
      exact .inr hself
    · exact hc'.imp_right fun h => (hother c' hcc).1.trans h
  · rw [Set.mem_singleton_iff.mp hc']
    exact .inr hself

private theorem Underway.lastPrice (h : Underway env market price timestamp db w) (conn : Conn)
    (r : LastPriceRow) :
    Underway env market price timestamp db
        (send conn (Table.upsertRow (.lastPrice t) fun _ => r) w) ∧
      ∀ c, Settled env market price timestamp db c w →
        Settled env market price timestamp db c
          (send conn (Table.upsertRow (.lastPrice t) fun _ => r) w) := by
  have hsame : ∀ c : Cell, c.table ≠ .lastPrice → SameAt c w
      (send conn (Table.upsertRow (.lastPrice t) fun _ => r : Stmt) w) := by
    refine fun c hc => sameAt_send (Table.upsertRow_fixes ?_) w
    rintro rfl
    exact hc rfl
  refine ⟨fun c hc => ⟨fun o => ?_, ?_⟩, fun c hc => ?_⟩
  · rw [(hsame c hc).2 o, (h c hc).1 o]
  · rw [(hsame c hc).1]
    exact (h c hc).2
  · by_cases ht : c.table = .lastPrice
    · exact .inl ht
    · exact .inr ((hsame c ht).1.trans (hc.resolve_left ht))

private theorem pricesWith_tick_of_isSome {time : ℕ}
    (h : (db.get (.tickPrice pair time)).isSome) :
    pricesWith env market price timestamp db (.tickPrice pair time) =
      db.get (.tickPrice pair time) := by
  by_cases htime : time = normalizeBlockTime timestamp env.tickTimeframe
  · subst htime
    obtain ⟨r, hr⟩ := Option.isSome_iff_exists.mp h
    exact insertAt_of_some hr
  · exact insertAt_of_ne htime

private theorem pricesWith_ohlc_of_isSome {time : ℕ}
    (h : (db.get (.ohlc pair timeframe time)).isSome) :
    pricesWith env market price timestamp db (.ohlc pair timeframe time) =
      db.get (.ohlc pair timeframe time) := by
  obtain ⟨r, hr⟩ := Option.isSome_iff_exists.mp h
  change candlesWith env market price timestamp db pair timeframe time = _
  rw [candlesWith]
  split
  · by_cases htime : time = normalizeBlockTime timestamp timeframe
    · subst htime
      exact insertAt_of_some hr
    · exact insertAt_of_ne htime
  · rfl

/-- The tick of the pair of a token. -/
private theorem meets_indexTokenTickPrice (hprice : env.Quotes price) (ht : t ≠ env.klyTokenID)
    (hpair : pairOf env db t = some pair) :
    (indexTokenTickPrice env .default timestamp t env.klyTokenID).Meets
      (Underway env market price timestamp db) (Settled env market price timestamp db) X
      {.tickPrice pair (normalizeBlockTime timestamp env.tickTimeframe)} := by
  refine meets_withPair (fun _ hw => hw.token) (fun pair' hpair' => ?_)
    fun hnone => by simp [hpair] at hnone
  obtain rfl : pair = pair' := Option.some_injective _ (hpair.symm.trans hpair')
  refine Async.meets_read_bind fun w hw _ => ?_
  split
  · rename_i hrow
    rintro c rfl
    exact hw.settled_of_isSome pricesWith_tick_of_isSome hrow
  rename_i hrow
  have hnone : ticksOf db pair (normalizeBlockTime timestamp env.tickTimeframe) = none :=
    hw.get_of_none (by simp [Cell.table]) pricesWith_tick_of_isSome
      (Option.not_isSome_iff_eq_none.mp hrow)
  have hwith : pricesWith env market price timestamp db
      (.tickPrice pair (normalizeBlockTime timestamp env.tickTimeframe)) =
        tickOf env market price timestamp db pair := insertAt_of_none hnone
  have hquote : ∀ w', Underway env market price timestamp db w' →
      env.getPrice (w'.view .default) t env.klyTokenID = price pair := by
    refine fun w' hw' => hprice _ t pair ht ?_
    rw [← hpair]
    simp only [pairOf, view, hw'.token]
  refine Async.meets_read_bind fun w' hw' _ => ?_
  simp only [hquote w' hw']
  split
  · rename_i hvalue
    refine meets_upsert_row (hwith.trans ?_)
    exact if_pos ⟨.inl ⟨t, ht, hpair⟩, hvalue⟩
  · rename_i hvalue
    rintro c rfl
    refine hw'.settled (hwith.trans ?_)
    rw [tickOf, if_neg fun h => hvalue h.2]
    exact hnone.symm

/-- Ticks of a pair whose own tick is settled. -/
private theorem ticksOf_of_settled (hw : Underway env market price timestamp db w)
    (hsettled : Settled env market price timestamp db
      (.tickPrice pair (normalizeBlockTime timestamp env.tickTimeframe)) w) :
    ticksOf w.committed pair = ticksWith env market price timestamp db pair := by
  funext time
  by_cases htime : time = normalizeBlockTime timestamp env.tickTimeframe
  · subst htime
    exact hsettled.resolve_left (by simp [Cell.table])
  · have hsame : pricesWith env market price timestamp db (.tickPrice pair time) =
        db.get (.tickPrice pair time) := insertAt_of_ne htime
    exact (hw.settled hsame).resolve_left (by simp [Cell.table])

/-- The candle of a pair, once its tick is settled. -/
private theorem meets_indexOhlc
    (hlisted : Listed env db (market.Answers (normalizeBlockTime timestamp env.tickTimeframe) ∨
      (ticksOf db pair (normalizeBlockTime timestamp env.tickTimeframe)).isSome) pair)
    (htimeframe : timeframe ∈ env.ohlcTimeframes)
    (hX : .tickPrice pair (normalizeBlockTime timestamp env.tickTimeframe) ∈ X) :
    (indexOhlc env .default timestamp pair timeframe).Meets (Underway env market price timestamp db)
      (Settled env market price timestamp db) X
      {.ohlc pair timeframe (normalizeBlockTime timestamp timeframe)} := by
  refine Async.meets_read_bind fun w hw hgoals => ?_
  split
  · rename_i hrow
    rintro c rfl
    exact hw.settled_of_isSome pricesWith_ohlc_of_isSome hrow
  rename_i hrow
  have hnone : candlesOf db pair timeframe (normalizeBlockTime timestamp timeframe) = none :=
    hw.get_of_none (by simp [Cell.table]) pricesWith_ohlc_of_isSome
      (Option.not_isSome_iff_eq_none.mp hrow)
  have hwith : pricesWith env market price timestamp db
      (.ohlc pair timeframe (normalizeBlockTime timestamp timeframe)) =
        candleAt env (ticksWith env market price timestamp db pair) timeframe
          (normalizeBlockTime timestamp timeframe) := by
    change candlesWith env market price timestamp db pair timeframe _ = _
    rw [candlesWith, if_pos htimeframe, insertAt_of_none hnone, candleOf, if_pos hlisted]
  refine Async.meets_read_bind fun w' hw' hgoals' => ?_
  -- The ticks that the candle is made of are settled when they are read.
  have hticks := ticksOf_of_settled hw' (hgoals' _ (hgoals _ hX))
  have hrows : candleAt env (ticksWith env market price timestamp db pair) timeframe
      (normalizeBlockTime timestamp timeframe) = (transformTickToOhlc env (w'.view .default) pair
        timeframe (normalizeBlockTime timestamp timeframe - (intervalToSecond timeframe).getD 0)
        (normalizeBlockTime timestamp timeframe)).head? := by
    rw [← hticks]
    rfl
  split
  · rename_i row rest hlist
    dsimp only at hlist
    refine meets_upsert_row (hwith.trans (hrows.trans ?_))
    rw [hlist]
    rfl
  · rename_i hlist
    dsimp only at hlist
    rintro c rfl
    refine hw'.settled (hwith.trans (hrows.trans ?_))
    rw [hlist]
    exact hnone.symm

/-- The rows that indexing a pair settles. -/
private def rowsOfPair (env : Env) (timestamp : ℕ) (pair : String) : Set Cell :=
  {c | c = .tickPrice pair (normalizeBlockTime timestamp env.tickTimeframe) ∨
    ∃ f ∈ env.ohlcTimeframes, c = .ohlc pair f (normalizeBlockTime timestamp f)}

private theorem meets_indexTokenOhlcPrice (ht : t ≠ env.klyTokenID)
    (hpair : pairOf env db t = some pair)
    (hX : .tickPrice pair (normalizeBlockTime timestamp env.tickTimeframe) ∈ X) :
    (indexTokenOhlcPrice env .default timestamp t env.klyTokenID).Meets
      (Underway env market price timestamp db) (Settled env market price timestamp db) X
      (rowsOfPair env timestamp pair) := by
  refine meets_withPair (fun _ hw => hw.token) (fun pair' hpair' => ?_)
    fun hnone => by simp [hpair] at hnone
  obtain rfl : pair = pair' := Option.some_injective _ (hpair.symm.trans hpair')
  have hthread : ∀ f ∈ env.ohlcTimeframes, (indexOhlc env .default timestamp pair f).Meets
      (Underway env market price timestamp db) (Settled env market price timestamp db) X
      {.ohlc pair f (normalizeBlockTime timestamp f)} :=
    fun f hf => meets_indexOhlc (.inl ⟨t, ht, hpair⟩) hf hX
  refine Async.Meets.interleave _ (fun p hp => ?_) fun c hc => ?_
  · obtain ⟨f, hf, rfl⟩ := List.mem_map.mp hp
    exact (hthread f hf).mono (Set.Subset.refl X) (Set.empty_subset _)
  · rcases hc with rfl | ⟨f, hf, rfl⟩
    · exact .inl hX
    · exact .inr ⟨_, List.mem_map_of_mem hf, hthread f hf⟩

/-- A token whose pair is not known settles nothing. -/
private theorem meets_withPair_none (hnone : pairOf env db t = none) {k : String → Prog Unit} :
    (withPair t env.klyTokenID k).Meets (Underway env market price timestamp db)
      (Settled env market price timestamp db) X X :=
  meets_withPair (fun _ hw => hw.token) (fun pair hpair => by simp [hpair] at hnone)
    fun _ => Set.Subset.refl X

/-- The rows of the pair of a token. -/
private theorem meets_indexRegisteredToken (hprice : env.Quotes price)
    (ht : t ≠ env.klyTokenID) (hpair : pairOf env db t = some pair) :
    (indexRegisteredToken env timestamp t).Meets (Underway env market price timestamp db)
      (Settled env market price timestamp db) X (rowsOfPair env timestamp pair) := by
  rw [indexRegisteredToken, if_pos ht]
  exact (meets_indexTokenTickPrice hprice ht hpair).bind fun _ =>
    (meets_indexTokenOhlcPrice ht hpair (Set.mem_singleton _)).bind fun _ =>
    meets_indexTokenLastPrice (fun _ hw => hw.token) fun w r hw => hw.lastPrice .default r

private theorem meets_indexRegisteredToken_empty (hprice : env.Quotes price) :
    (indexRegisteredToken env timestamp t).Meets (Underway env market price timestamp db)
      (Settled env market price timestamp db) X ∅ := by
  by_cases ht : t = env.klyTokenID
  · rw [indexRegisteredToken, if_neg (by simpa using ht)]
    exact Set.empty_subset X
  · cases hpair : pairOf env db t with
    | none =>
      rw [indexRegisteredToken, if_pos ht]
      have hrest : (indexTokenPrice env timestamp t env.klyTokenID).Meets
          (Underway env market price timestamp db) (Settled env market price timestamp db) X X :=
        (meets_withPair_none hpair).bind fun _ => (meets_withPair_none hpair).bind fun _ =>
          meets_indexTokenLastPrice (fun _ hw => hw.token) fun w r hw => hw.lastPrice .default r
      exact hrest.mono (Set.Subset.refl X) (Set.empty_subset X)
    | some pair =>
      exact (meets_indexRegisteredToken hprice ht hpair).mono (Set.Subset.refl X)
        (Set.empty_subset _)

/-- A row that is not settled at once is one of a registered pair, or of `klyusd`. -/
private theorem unsettled_row {c : Cell}
    (h : pricesWith env market price timestamp db c ≠ db.get c) :
    ∃ pair, c ∈ rowsOfPair env timestamp pair ∧
      Listed env db (market.Answers (normalizeBlockTime timestamp env.tickTimeframe) ∨
        (ticksOf db pair (normalizeBlockTime timestamp env.tickTimeframe)).isSome) pair := by
  cases c with
  | tickPrice pair time =>
    have htime : time = normalizeBlockTime timestamp env.tickTimeframe := by
      by_contra hne
      exact h (insertAt_of_ne hne)
    refine ⟨pair, .inl (by rw [htime]), ?_⟩
    by_contra hnot
    refine h ?_
    have hnone : tickOf env market price timestamp db pair = none := if_neg fun hand =>
      hnot (hand.1.imp_right fun husd => ⟨husd.1, .inl husd.2⟩)
    change ticksWith env market price timestamp db pair time = _
    rw [ticksWith, hnone, insertAt_none]
    rfl
  | ohlc pair f time =>
    have hf : f ∈ env.ohlcTimeframes := by
      by_contra hf
      refine h ?_
      change candlesWith env market price timestamp db pair f time = _
      rw [candlesWith, if_neg hf]
      rfl
    have hwith : pricesWith env market price timestamp db (.ohlc pair f time) =
        insertAt (normalizeBlockTime timestamp f) (candleOf env market price timestamp db pair f)
          (candlesOf db pair f) time := by
      change candlesWith env market price timestamp db pair f time = _
      rw [candlesWith, if_pos hf]
    rw [hwith] at h
    have htime : time = normalizeBlockTime timestamp f := by
      by_contra hne
      exact h (insertAt_of_ne hne)
    refine ⟨pair, .inr ⟨f, hf, by rw [htime]⟩, ?_⟩
    by_contra hnot
    refine h ?_
    have hnone : candleOf env market price timestamp db pair f = none := if_neg hnot
    rw [hnone, insertAt_none]
    rfl
  | _ => exact absurd rfl h

/-- The rows that the tokens leave to the job for `klyusd`. -/
private def leftToJob (env : Env) (market : Market) (timestamp : ℕ) (db : DB) : Set Cell :=
  {c | c ∈ rowsOfPair env timestamp "klyusd" ∧
    (market.Answers (normalizeBlockTime timestamp env.tickTimeframe) ∨
      (ticksOf db "klyusd" (normalizeBlockTime timestamp env.tickTimeframe)).isSome)}

private theorem meets_addPriceIndex (hprice : env.Quotes price) {header : BlockHeader}
    (htimestamp : header.timestamp = timestamp) :
    (addPriceIndex env header).Meets (Underway env market price timestamp db)
      (Settled env market price timestamp db) ∅ (leftToJob env market timestamp db)ᶜ := by
  refine Async.meets_read_bind fun w hw _ => ?_
  refine Async.Meets.bind (Y := (leftToJob env market timestamp db)ᶜ) ?_ fun _ =>
    meets_updateLastPrice fun w r hw => hw.lastPrice .dbTrx r
  rw [htimestamp]
  refine Async.Meets.interleave _ (fun p hp => ?_) fun c hc => ?_
  · obtain ⟨t, -, rfl⟩ := List.mem_map.mp hp
    exact meets_indexRegisteredToken_empty hprice
  -- A row that is to change is one of a registered token, whose thread settles it.
  by_cases hsame : pricesWith env market price timestamp db c = db.get c
  · exact .inl (hw.settled hsame)
  · obtain ⟨pair, hmem, ⟨t, ht, hpair⟩ | ⟨rfl, husd⟩⟩ := unsettled_row hsame
    · refine .inr ⟨_, List.mem_map_of_mem ((env.mem_listTokens _ t).mpr ?_),
        (meets_indexRegisteredToken hprice ht hpair).mono (Set.Subset.refl _)
          (Set.singleton_subset_iff.mpr hmem)⟩
      rw [view, hw.token]
      rw [pairOf] at hpair
      split at hpair
      · rename_i hb _
        rw [hb]
        rfl
      · simp at hpair
    · exact absurd ⟨hmem, husd⟩ hc

/-! ### The job for `klyusd` -/

/-- The tick of `klyusd`, if the market answers. -/
private theorem meets_indexKLYUSDTickPrice
    (husd : market.Quotes (normalizeBlockTime timestamp env.tickTimeframe) price)
    (hanswers : market.Answers (normalizeBlockTime timestamp env.tickTimeframe)) :
    (indexKLYUSDTickPrice env market timestamp).Meets
      (Underway env market price timestamp db) (Settled env market price timestamp db) X
      {.tickPrice "klyusd" (normalizeBlockTime timestamp env.tickTimeframe)} := by
  refine Async.meets_read_bind fun w hw _ => ?_
  split
  · rename_i hrow
    rintro c rfl
    exact hw.settled_of_isSome pricesWith_tick_of_isSome hrow
  rename_i hrow
  have hnone : ticksOf db "klyusd" (normalizeBlockTime timestamp env.tickTimeframe) = none :=
    hw.get_of_none (by simp [Cell.table]) pricesWith_tick_of_isSome
      (Option.not_isSome_iff_eq_none.mp hrow)
  have hwith : pricesWith env market price timestamp db
      (.tickPrice "klyusd" (normalizeBlockTime timestamp env.tickTimeframe)) =
        tickOf env market price timestamp db "klyusd" := insertAt_of_none hnone
  -- A price of zero is not written.
  have hzero : price "klyusd" = 0 → ({.tickPrice "klyusd"
      (normalizeBlockTime timestamp env.tickTimeframe)} : Set Cell) ⊆
        {c | Settled env market price timestamp db c w} := by
    rintro hprice c rfl
    refine hw.settled (hwith.trans ?_)
    rw [tickOf, if_neg fun h => h.2 hprice]
    exact hnone.symm
  obtain ⟨klyCandles, hmarket⟩ := Option.isSome_iff_exists.mp hanswers
  have hvalue := husd klyCandles hmarket
  have hmarketPrice : getKLYUSDPriceAtTimestamp market
      (normalizeBlockTime timestamp env.tickTimeframe) = pure (klyCandles.head?.map (·.open)) := by
    rw [getKLYUSDPriceAtTimestamp, hmarket]
    rfl
  rw [hmarketPrice]
  cases hhead : klyCandles.head?.map (·.open) with
  | none =>
    rw [hhead] at hvalue
    exact hzero hvalue.symm
  | some value =>
    rw [hhead, Option.getD_some] at hvalue
    rw [pure_bind]
    dsimp only
    split
    · rename_i hv
      exact hzero (hvalue.symm.trans hv)
    · rename_i hv
      refine meets_upsert_row (hwith.trans ?_)
      rw [hvalue]
      exact if_pos ⟨.inr ⟨rfl, hanswers⟩, fun h => hv (hvalue.trans h)⟩

private theorem meets_indexKLYUSDOhlcPrice {order : List ℕ}
    (hlisted : Listed env db (market.Answers (normalizeBlockTime timestamp env.tickTimeframe) ∨
      (ticksOf db "klyusd" (normalizeBlockTime timestamp env.tickTimeframe)).isSome) "klyusd")
    (hX : .tickPrice "klyusd" (normalizeBlockTime timestamp env.tickTimeframe) ∈ X) :
    (indexKLYUSDOhlcPrice env order timestamp).Meets (Underway env market price timestamp db)
      (Settled env market price timestamp db) X (X ∪ rowsOfPair env timestamp "klyusd") := by
  have hthread : ∀ f ∈ env.ohlcTimeframes, (indexOhlc env .default timestamp "klyusd" f).Meets
      (Underway env market price timestamp db) (Settled env market price timestamp db) X
      {.ohlc "klyusd" f (normalizeBlockTime timestamp f)} :=
    fun f hf => meets_indexOhlc hlisted hf hX
  refine Async.Meets.interleave _ (fun p hp => ?_) fun c hc => ?_
  · obtain ⟨f, hf, rfl⟩ := List.mem_map.mp hp
    exact (hthread f hf).mono (Set.Subset.refl X) (Set.empty_subset _)
  · rcases hc with hc | rfl | ⟨f, hf, rfl⟩
    · exact .inl hc
    · exact .inl hX
    · exact .inr ⟨_, List.mem_map_of_mem hf, hthread f hf⟩

/-- A `klyusd` tick that is there is one that the job looks for candles with. -/
private theorem Underway.listed_klyusd (h : Underway env market price timestamp db w)
    (hrow : (w.committed.get
      (.tickPrice "klyusd" (normalizeBlockTime timestamp env.tickTimeframe))).isSome) :
    Listed env db (market.Answers (normalizeBlockTime timestamp env.tickTimeframe) ∨
      (ticksOf db "klyusd" (normalizeBlockTime timestamp env.tickTimeframe)).isSome) "klyusd" := by
  by_contra hnot
  have hnone : ticksOf db "klyusd" (normalizeBlockTime timestamp env.tickTimeframe) = none :=
    Option.not_isSome_iff_eq_none.mp fun hsome => hnot (.inr ⟨rfl, .inr hsome⟩)
  have hwith : pricesWith env market price timestamp db
      (.tickPrice "klyusd" (normalizeBlockTime timestamp env.tickTimeframe)) =
        tickOf env market price timestamp db "klyusd" := insertAt_of_none hnone
  rw [tickOf, if_neg fun hand => hnot (hand.1.imp_right fun husd => ⟨rfl, .inl husd.2⟩)] at hwith
  rcases (h (.tickPrice "klyusd" _) (by simp [Cell.table])).2 with hold | hnew
  · rw [hold] at hrow
    exact absurd hnone (Option.isSome_iff_ne_none.mp hrow)
  · rw [hnew, hwith] at hrow
    exact absurd hrow (by simp)

private theorem run_indexKLYUSDTickPrice_of_isSome
    (hrow : (w.committed.get
      (.tickPrice "klyusd" (normalizeBlockTime timestamp env.tickTimeframe))).isSome) :
    (indexKLYUSDTickPrice env market timestamp).run w = (.ok (), w) := by
  change Async.run (if (w.committed.get (.tickPrice "klyusd" _)).isSome then _ else _) w = _
  rw [if_pos hrow]
  rfl

private theorem run_indexKLYUSDTickPrice_of_not_answers
    (hanswers : ¬ market.Answers (normalizeBlockTime timestamp env.tickTimeframe))
    (hrow : w.committed.get
      (.tickPrice "klyusd" (normalizeBlockTime timestamp env.tickTimeframe)) = none) :
    (indexKLYUSDTickPrice env market timestamp).run w = (.error marketUnavailable, w) := by
  have hmarket : market "1m" (normalizeBlockTime timestamp env.tickTimeframe)
      (normalizeBlockTime timestamp env.tickTimeframe) = none :=
    Option.not_isSome_iff_eq_none.mp hanswers
  simp only [indexKLYUSDTickPrice, getKLYUSDPriceAtTimestamp, hmarket]
  change Async.run (if (w.committed.get (.tickPrice "klyusd" _)).isSome then _ else _) w = _
  rw [hrow]
  rfl

/-- What the job leaves behind once the tokens are done. -/
private theorem run_indexCurrentKLYUSDPrice {order : List ℕ}
    (husd : market.Quotes (normalizeBlockTime timestamp env.tickTimeframe) price)
    (hw : Underway env market price timestamp db w)
    (hgoals : ∀ c ∈ (leftToJob env market timestamp db)ᶜ,
      Settled env market price timestamp db c w) (c : Cell) :
    Settled env market price timestamp db c
      ((indexCurrentKLYUSDPrice env order market timestamp).run w).2 := by
  have hall : ∀ X : Set Cell, (leftToJob env market timestamp db)ᶜ ⊆ X →
      c ∈ X ∪ rowsOfPair env timestamp "klyusd" := by
    intro X hX
    by_cases hc : c ∈ leftToJob env market timestamp db
    · exact .inr hc.1
    · exact .inl (hX hc)
  have hohlc : ∀ w', Underway env market price timestamp db w' →
      Listed env db (market.Answers (normalizeBlockTime timestamp env.tickTimeframe) ∨
        (ticksOf db "klyusd" (normalizeBlockTime timestamp env.tickTimeframe)).isSome) "klyusd" →
      (∀ c ∈ (leftToJob env market timestamp db)ᶜ ∪
        {.tickPrice "klyusd" (normalizeBlockTime timestamp env.tickTimeframe)},
        Settled env market price timestamp db c w') →
      Settled env market price timestamp db c
        ((indexKLYUSDOhlcPrice env order timestamp).run w').2 := by
    intro w' hw' hlisted hgoals'
    obtain ⟨⟨⟩, w'', hrun, -, hsettled⟩ :=
      (meets_indexKLYUSDOhlcPrice hlisted (.inr (Set.mem_singleton _))).run hw' hgoals'
    rw [hrun]
    exact hsettled c (hall _ Set.subset_union_left)
  rw [indexCurrentKLYUSDPrice, Async.run_bind]
  by_cases hanswers : market.Answers (normalizeBlockTime timestamp env.tickTimeframe)
  · obtain ⟨⟨⟩, w', hrun, hw', hsettled⟩ :=
      (meets_indexKLYUSDTickPrice husd hanswers).keep.run hw hgoals
    rw [hrun]
    exact hohlc w' hw' (.inr ⟨rfl, .inl hanswers⟩) hsettled
  -- Without an answer the job goes on only if there is nothing to ask for.
  by_cases hrow : (w.committed.get
      (.tickPrice "klyusd" (normalizeBlockTime timestamp env.tickTimeframe))).isSome
  · rw [run_indexKLYUSDTickPrice_of_isSome hrow]
    refine hohlc w hw (hw.listed_klyusd hrow) fun c hc => ?_
    rcases hc with hc | rfl
    · exact hgoals c hc
    · exact hw.settled_of_isSome pricesWith_tick_of_isSome hrow
  · have hnone := Option.not_isSome_iff_eq_none.mp hrow
    rw [run_indexKLYUSDTickPrice_of_not_answers hanswers hnone]
    refine hgoals c fun hc => ?_
    have hsome := hc.2.resolve_left hanswers
    exact absurd (hw.get_of_none (by simp [Cell.table]) pricesWith_tick_of_isSome hnone)
      (Option.isSome_iff_ne_none.mp hsome)

/-- **Adding the price index** inserts the rows of the block, whatever the order of the concurrent
steps. -/
theorem addPrices_get {header : BlockHeader} (hprice : PricedAt env market header.timestamp price)
    (order : List ℕ) (db : DB) {c : Cell} (hc : c.table ≠ .lastPrice) :
    (addPrices env order market header db).get c =
      pricesWith env market price header.timestamp db c := by
  have hstart : Underway env market price header.timestamp db (ofStore db) :=
    fun c _ => ⟨fun _ => rfl, .inl rfl⟩
  obtain ⟨⟨⟩, w, hrun, hw, hgoals⟩ :=
    (meets_addPriceIndex hprice.tokens rfl).run hstart (by simp)
  have hcommit : (transact none outsideFailure (addPriceIndex env header) db).2 =
      w.commit.committed := by
    rw [transact_ok.mpr ⟨rfl, w, hrun, rfl⟩]
  -- Of the rows at hand the transaction changes none.
  have hget : ∀ c : Cell, c.table ≠ .lastPrice →
      w.commit.committed.get c = w.committed.get c := fun c hc => (hw c hc).1 _
  have hw' : Underway env market price header.timestamp db (ofStore w.commit.committed) :=
    fun c hc => ⟨fun _ => rfl, by
      rw [ofStore_committed, hget c hc]
      exact (hw c hc).2⟩
  have hgoals' : ∀ c ∈ (leftToJob env market header.timestamp db)ᶜ,
      Settled env market price header.timestamp db c (ofStore w.commit.committed) := by
    intro c hmem
    by_cases hc : c.table = .lastPrice
    · exact .inl hc
    · refine .inr ?_
      rw [ofStore_committed, hget c hc]
      exact (hgoals c hmem).resolve_left hc
  rw [addPrices, hcommit]
  exact (run_indexCurrentKLYUSDPrice hprice.klyusd hw' hgoals' c).resolve_left hc

end Add

/-! ### Deleting the price index -/

/-- The row is one that `deletePriceIndex` drops. -/
def DroppedRow (env : Env) (timestamp : ℕ) (db : DB) : Cell → Prop
  | .tickPrice pair t =>
    Cleared db pair ∧ normalizeBlockTime timestamp env.tickTimeframe < t
  | .ohlc pair timeframe t => timeframe ∈ env.ohlcTimeframes ∧ Cleared db pair ∧
      normalizeBlockTime timestamp timeframe < t
  | _ => False

section Delete

variable {env : Env} {timestamp : ℕ} {db : DB} {w : DBSession} {t : TokenID} {X Y : Set Cell}

/-- Besides `last_price`, the transaction drops only rows that are to be dropped, and nothing is
committed. -/
private def Dropping (env : Env) (timestamp : ℕ) (db : DB) (w : DBSession) : Prop :=
  w.committed = db ∧ ∀ c : Cell, c.table ≠ .lastPrice → (∀ o, w.pending.act c o = o) ∨
    DroppedRow env timestamp db c ∧ ∀ o, w.pending.act c o = none

/-- The row is dropped, if it is to be. -/
private def Gone (env : Env) (timestamp : ℕ) (db : DB) (c : Cell) (w : DBSession) : Prop :=
  DroppedRow env timestamp db c → ∀ o, w.pending.act c o = none

private theorem droppedRow_lastPrice {c : Cell} (hc : c.table = .lastPrice) :
    ¬ DroppedRow env timestamp db c := by
  cases c <;> simp [Cell.table] at hc
  exact id

private theorem Dropping.lastPrice (h : Dropping env timestamp db w) (r : LastPriceRow) :
    Dropping env timestamp db (send .dbTrx (Table.upsertRow (.lastPrice t) fun _ => r) w) ∧
      ∀ c, Gone env timestamp db c w →
        Gone env timestamp db c (send .dbTrx (Table.upsertRow (.lastPrice t) fun _ => r) w) := by
  have hsame : ∀ c : Cell, c.table ≠ .lastPrice → SameAt c w
      (send .dbTrx (Table.upsertRow (.lastPrice t) fun _ => r : Stmt) w) := by
    refine fun c hc => sameAt_send (Table.upsertRow_fixes ?_) w
    rintro rfl
    exact hc rfl
  refine ⟨⟨h.1, fun c hc => ?_⟩, fun c hc hdropped o => ?_⟩
  · simp only [(hsame c hc).2]
    exact h.2 c hc
  · have ht : c.table ≠ .lastPrice := fun ht => droppedRow_lastPrice ht hdropped
    rw [(hsame c ht).2, hc hdropped]

/-- One deletion. -/
private theorem meets_deleteWhere {p : (c : Cell) → Row c → Bool}
    (hp : ∀ c, (∀ r, p c r = false) ∨ DroppedRow env timestamp db c ∧ ∀ r, p c r = true)
    (hY : ∀ c ∈ Y, DroppedRow env timestamp db c → ∀ r, p c r = true) :
    (exec .dbTrx (Table.deleteWhere p) : Prog Unit).Meets (Dropping env timestamp db)
      (Gone env timestamp db) X Y := by
  refine Async.meets_act fun w hw _ => ?_
  have hall : ∀ c, (∀ r, p c r = true) →
      ∀ o, (send .dbTrx (Table.deleteWhere p) w).pending.act c o = none := by
    intro c hc o
    change (w.pending.act c o).bind (fun r => if p c r then none else some r) = none
    cases w.pending.act c o with
    | none => rfl
    | some r => simp [hc r]
  have hother : ∀ c, (∀ r, p c r = false) →
      ∀ o, (send .dbTrx (Table.deleteWhere p) w).pending.act c o = w.pending.act c o :=
    fun c hc o => Table.deleteWhere_fixes hc _
  refine ⟨⟨hw.1, fun c hc => ?_⟩, fun c hc hdropped o => ?_, fun c hc hdropped => ?_⟩
  · rcases hp c with hfalse | ⟨hdropped, htrue⟩
    · simp only [hother c hfalse]
      exact hw.2 c hc
    · exact .inr ⟨hdropped, hall c htrue⟩
  · rcases hp c with hfalse | ⟨-, htrue⟩
    · rw [hother c hfalse, hc hdropped]
    · exact hall c htrue o
  · exact hall c (hY c hc hdropped)

/-- The rows that are dropped for one token. -/
private def droppedFor (env : Env) (timestamp : ℕ) (symbol : String) : Set Cell :=
  {c | (∃ t, c = .tickPrice (symbol.toLower ++ "kly") t ∧
      normalizeBlockTime timestamp env.tickTimeframe < t) ∨
    ∃ f ∈ env.ohlcTimeframes, ∃ t, c = .ohlc (symbol.toLower ++ "kly") f t ∧
      normalizeBlockTime timestamp f < t}

private theorem meets_deleteTickPriceIndex {r : TokenRow} (hr : db.get (.token t) = some r) :
    (deleteTickPriceIndex env r.symbol timestamp).Meets (Dropping env timestamp db)
      (Gone env timestamp db) X {c | ∃ t, c = .tickPrice (r.symbol.toLower ++ "kly") t ∧
        normalizeBlockTime timestamp env.tickTimeframe < t} := by
  refine meets_deleteWhere (fun c => ?_) ?_
  · cases c with
    | tickPrice pair time =>
      by_cases h : pair = r.symbol.toLower ++ "kly" ∧
          normalizeBlockTime timestamp env.tickTimeframe < time
      · exact .inr ⟨⟨⟨t, r, hr, h.1.symm⟩, h.2⟩, fun _ => by simp [tickPricesAfter, h.1, h.2]⟩
      · refine .inl fun _ => ?_
        simpa [tickPricesAfter] using h
    | _ => exact .inl fun _ => rfl
  · rintro c ⟨time, rfl, hlt⟩ - _
    simp [tickPricesAfter, hlt]

private theorem meets_deleteOhlcPriceIndex {r : TokenRow} (hr : db.get (.token t) = some r) :
    (deleteOhlcPriceIndex env t r.symbol timestamp).Meets (Dropping env timestamp db)
      (Gone env timestamp db) X (X ∪ {c | ∃ f ∈ env.ohlcTimeframes, ∃ t,
        c = .ohlc (r.symbol.toLower ++ "kly") f t ∧ normalizeBlockTime timestamp f < t}) := by
  have hthread : ∀ f ∈ env.ohlcTimeframes, (exec .dbTrx (Table.deleteWhere
      (ohlcAfter (r.symbol.toLower ++ "kly") f (normalizeBlockTime timestamp f))) :
        Prog Unit).Meets (Dropping env timestamp db) (Gone env timestamp db) X
        {c | ∃ t, c = .ohlc (r.symbol.toLower ++ "kly") f t ∧
          normalizeBlockTime timestamp f < t} := by
    intro f hf
    refine meets_deleteWhere (fun c => ?_) ?_
    · cases c with
      | ohlc pair f' time =>
        by_cases h : (pair = r.symbol.toLower ++ "kly" ∧ f' = f) ∧
            normalizeBlockTime timestamp f < time
        · obtain ⟨⟨rfl, rfl⟩, hlt⟩ := h
          exact .inr ⟨⟨hf, ⟨t, r, hr, rfl⟩, hlt⟩, fun _ => by simp [ohlcAfter, hlt]⟩
        · refine .inl fun _ => ?_
          simpa [ohlcAfter] using h
      | _ => exact .inl fun _ => rfl
    · rintro c ⟨time, rfl, hlt⟩ - _
      simp [ohlcAfter, hlt]
  refine Async.Meets.interleave _ (fun p hp => ?_) fun c hc => ?_
  · obtain ⟨f, hf, rfl⟩ := List.mem_map.mp hp
    exact (hthread f hf).mono (Set.Subset.refl X) (Set.empty_subset _)
  · rcases hc with hc | ⟨f, hf, time, rfl, hlt⟩
    · exact .inl hc
    · exact .inr ⟨_, List.mem_map_of_mem hf, (hthread f hf).mono (Set.Subset.refl X)
        (Set.singleton_subset_iff.mpr ⟨time, rfl, hlt⟩)⟩

private theorem meets_deleteToken {r : TokenRow} (hr : db.get (.token t) = some r) :
    (do
      deleteTickPriceIndex env r.symbol timestamp
      deleteOhlcPriceIndex env t r.symbol timestamp
      indexTokenLastPrice env .dbTrx timestamp t env.klyTokenID : Prog Unit).Meets
        (Dropping env timestamp db) (Gone env timestamp db) X
        (droppedFor env timestamp r.symbol) :=
  (meets_deleteTickPriceIndex hr).bind fun _ => (meets_deleteOhlcPriceIndex hr).bind fun _ =>
    meets_indexTokenLastPrice (fun w hw t => by rw [hw.1]) fun w r hw => hw.lastPrice r

private theorem mem_tokensWithSymbols {p : TokenID × String} :
    p ∈ tokensWithSymbols env db ↔ ∃ r, db.get (.token p.1) = some r ∧ r.symbol = p.2 := by
  obtain ⟨t, symbol⟩ := p
  simp only [tokensWithSymbols, List.mem_filterMap, env.mem_listTokens, Option.map_eq_some_iff,
    Prod.mk.injEq]
  constructor
  · rintro ⟨t, -, r, hr, rfl, rfl⟩
    exact ⟨r, hr, rfl⟩
  · rintro ⟨r, hr, rfl⟩
    exact ⟨t, by simp [hr], r, hr, rfl, rfl⟩

private theorem droppedRow_token {c : Cell} (h : DroppedRow env timestamp db c) :
    ∃ t r, db.get (.token t) = some r ∧ c ∈ droppedFor env timestamp r.symbol := by
  cases c with
  | tickPrice pair time =>
    obtain ⟨⟨t, r, hr, rfl⟩, hlt⟩ := h
    exact ⟨t, r, hr, .inl ⟨time, rfl, hlt⟩⟩
  | ohlc pair f time =>
    obtain ⟨hf, ⟨t, r, hr, rfl⟩, hlt⟩ := h
    exact ⟨t, r, hr, .inr ⟨f, hf, time, rfl, hlt⟩⟩
  | _ => exact h.elim

private theorem meets_deletePriceIndex {header : BlockHeader}
    (htimestamp : header.timestamp = timestamp) :
    (deletePriceIndex env header).Meets (Dropping env timestamp db) (Gone env timestamp db) ∅
      Set.univ := by
  refine Async.meets_read_bind fun w hw _ => ?_
  refine Async.Meets.bind (Y := Set.univ) ?_ fun _ =>
    meets_updateLastPrice fun w r hw => hw.lastPrice r
  rw [htimestamp, view, hw.1]
  refine Async.Meets.interleave _ (fun q hq => ?_) fun c _ => ?_
  · obtain ⟨⟨t, symbol⟩, hp, rfl⟩ := List.mem_map.mp hq
    obtain ⟨r, hr, hsymbol⟩ := mem_tokensWithSymbols.mp hp
    have hsymbol' : symbol = r.symbol := hsymbol.symm
    dsimp only
    rw [hsymbol']
    exact (meets_deleteToken hr).mono (Set.Subset.refl _) (Set.empty_subset _)
  by_cases hc : DroppedRow env timestamp db c
  · obtain ⟨t, r, hr, hmem⟩ := droppedRow_token hc
    have hp : (t, r.symbol) ∈ tokensWithSymbols env db := mem_tokensWithSymbols.mpr ⟨r, hr, rfl⟩
    refine .inr ⟨_, List.mem_map_of_mem hp, ?_⟩
    dsimp only
    exact (meets_deleteToken hr).mono (Set.Subset.refl _) (Set.singleton_subset_iff.mpr hmem)
  · exact .inl fun hdropped => absurd hdropped hc

open Classical in
/-- **Deleting the price index** drops the rows after the normalised times of the block. -/
theorem deletePrices_get (header : BlockHeader) (db : DB) {c : Cell} (hc : c.table ≠ .lastPrice) :
    (deletePrices env header db).get c =
      if DroppedRow env header.timestamp db c then none else db.get c := by
  have hstart : Dropping env header.timestamp db (ofStore db) :=
    ⟨rfl, fun c _ => .inl fun _ => rfl⟩
  obtain ⟨⟨⟩, w, hrun, ⟨hcommitted, hw⟩, hgoals⟩ :=
    (meets_deletePriceIndex rfl).run hstart (by simp)
  have hcommit : deletePrices env header db = w.commit.committed := by
    rw [deletePrices, transact_ok.mpr ⟨rfl, w, hrun, rfl⟩]
  have hget : (deletePrices env header db).get c = w.pending.act c (db.get c) := by
    rw [hcommit, ← hcommitted]
    rfl
  rw [hget]
  split
  · rename_i hdropped
    exact hgoals c (Set.mem_univ c) hdropped _
  · rename_i hnot
    rcases hw c hc with hsame | ⟨hdropped, -⟩
    · exact hsame _
    · exact absurd hdropped hnot

end Delete

/-! ### Undo -/

/-- The two environments belong to the same deployment. -/
structure Env.SameConfig (env env' : Env) : Prop where
  klyTokenID : env'.klyTokenID = env.klyTokenID
  tickTimeframe : env'.tickTimeframe = env.tickTimeframe
  ohlcTimeframes : env'.ohlcTimeframes = env.ohlcTimeframes

/-- The databases hold the same price rows. -/
structure SamePrices (db db' : DB) : Prop where
  ticks : ∀ pair t, db'.get (.tickPrice pair t) = db.get (.tickPrice pair t)
  candles : ∀ pair timeframe t,
    db'.get (.ohlc pair timeframe t) = db.get (.ohlc pair timeframe t)

/-- The condition for one pair: no row is dropped that the second block does not bring back, and
the first block brings no row that the second one would not have brought. -/
structure PricesReturn (env env' : Env) (market market' : Market) (price price' : String → ℚ)
    (b b' : BlockHeader) (db : DB) (pair : String) : Prop where
  laterTicks : Cleared db pair → ∀ t r, normalizeBlockTime b.timestamp env.tickTimeframe < t →
    db.get (.tickPrice pair t) = some r →
      t = normalizeBlockTime b'.timestamp env.tickTimeframe ∧
        tickOf env' market' price' b'.timestamp db pair = some r
  ownTick : db.get (.tickPrice pair (normalizeBlockTime b.timestamp env.tickTimeframe)) = none →
    ∀ r, tickOf env market price b.timestamp db pair = some r →
      normalizeBlockTime b'.timestamp env.tickTimeframe =
        normalizeBlockTime b.timestamp env.tickTimeframe ∧
          tickOf env' market' price' b'.timestamp db pair = some r
  laterCandles : ∀ f ∈ env.ohlcTimeframes, Cleared db pair → ∀ t r,
    normalizeBlockTime b.timestamp f < t → db.get (.ohlc pair f t) = some r →
      t = normalizeBlockTime b'.timestamp f ∧
        candleOf env' market' price' b'.timestamp db pair f = some r
  ownCandle : ∀ f ∈ env.ohlcTimeframes,
    db.get (.ohlc pair f (normalizeBlockTime b.timestamp f)) = none →
      ∀ r, candleOf env market price b.timestamp db pair f = some r →
        normalizeBlockTime b'.timestamp f = normalizeBlockTime b.timestamp f ∧
          candleOf env' market' price' b'.timestamp db pair f = some r

section Undo

open Classical

variable {env env' : Env} {market market' : Market} {order order' : List ℕ}
  {price price' : String → ℚ} {b b' : BlockHeader} {db db' : DB} {pair timeframe : String}

/-- The tokens are those of another database. -/
private theorem pairOf_congr (h : ∀ t, db'.get (.token t) = db.get (.token t)) (t : TokenID) :
    pairOf env db' t = pairOf env db t := by
  rw [pairOf, pairOf, h, h]

private theorem priced_congr (h : ∀ t, db'.get (.token t) = db.get (.token t)) :
    Priced env db' pair ↔ Priced env db pair := by
  simp only [Priced, pairOf_congr h]

private theorem listed_congr (h : ∀ t, db'.get (.token t) = db.get (.token t)) {usd : Prop} :
    Listed env db' usd pair ↔ Listed env db usd pair :=
  or_congr_left (priced_congr h)

private theorem tickOf_congr (h : ∀ t, db'.get (.token t) = db.get (.token t)) :
    tickOf env market price b.timestamp db' pair = tickOf env market price b.timestamp db pair :=
  if_congr (and_congr_left' (listed_congr h)) rfl rfl

/-- With the same ticks, the second block looks for the same candles. -/
private theorem listed_ticks_congr (h : ∀ t, db'.get (.token t) = db.get (.token t))
    (hticks : ticksWith env market price b.timestamp db' pair =
      ticksWith env market price b.timestamp db pair) :
    Listed env db' (market.Answers (normalizeBlockTime b.timestamp env.tickTimeframe) ∨
        (ticksOf db' pair (normalizeBlockTime b.timestamp env.tickTimeframe)).isSome) pair ↔
      Listed env db (market.Answers (normalizeBlockTime b.timestamp env.tickTimeframe) ∨
        (ticksOf db pair (normalizeBlockTime b.timestamp env.tickTimeframe)).isSome) pair := by
  by_cases hlisted :
      Listed env db (market.Answers (normalizeBlockTime b.timestamp env.tickTimeframe)) pair
  · have hleft : ∀ {usd : Prop}, Listed env db
        (market.Answers (normalizeBlockTime b.timestamp env.tickTimeframe) ∨ usd) pair :=
      hlisted.imp_right fun husd => ⟨husd.1, .inl husd.2⟩
    exact iff_of_true ((listed_congr h).mpr hleft) hleft
  · -- The block brings no tick, so the ticks are the same already.
    have hnone : tickOf env market price b.timestamp db pair = none :=
      if_neg fun hand => hlisted hand.1
    rw [ticksWith, ticksWith, tickOf_congr h, hnone, insertAt_none, insertAt_none] at hticks
    rw [hticks]
    exact listed_congr h

private theorem cleared_congr (h : ∀ t, db'.get (.token t) = db.get (.token t)) :
    Cleared db' pair ↔ Cleared db pair := by
  simp only [Cleared, h]

private theorem addPrices_token (hprice : PricedAt env market b.timestamp price) (t : TokenID) :
    (addPrices env order market b db).get (.token t) = db.get (.token t) :=
  addPrices_get hprice order db (by simp [Cell.table])

private theorem deletePrices_token (t : TokenID) :
    (deletePrices env b db).get (.token t) = db.get (.token t) := by
  rw [deletePrices_get b db (by simp [Cell.table])]
  exact if_neg fun h => h

theorem addPrices_ticks (hprice : PricedAt env market b.timestamp price) (db : DB)
    (pair : String) :
    ticksOf (addPrices env order market b db) pair =
      ticksWith env market price b.timestamp db pair := by
  funext t
  exact addPrices_get hprice order db (by simp [Cell.table])

theorem addPrices_candles (hprice : PricedAt env market b.timestamp price) (db : DB)
    (pair timeframe : String) :
    candlesOf (addPrices env order market b db) pair timeframe =
      candlesWith env market price b.timestamp db pair timeframe := by
  funext t
  exact addPrices_get hprice order db (by simp [Cell.table])

theorem deletePrices_ticks (b : BlockHeader) (db : DB) (pair : String) :
    ticksOf (deletePrices env b db) pair = dropAfter (Cleared db pair)
      (normalizeBlockTime b.timestamp env.tickTimeframe) (ticksOf db pair) := by
  funext t
  have hget := @deletePrices_get env b db (.tickPrice pair t) (by simp [Cell.table])
  exact hget.trans (if_congr Iff.rfl rfl rfl)

theorem deletePrices_candles (b : BlockHeader) (db : DB) (pair : String)
    (hf : timeframe ∈ env.ohlcTimeframes) :
    candlesOf (deletePrices env b db) pair timeframe = dropAfter (Cleared db pair)
      (normalizeBlockTime b.timestamp timeframe) (candlesOf db pair timeframe) := by
  funext t
  have hget := @deletePrices_get env b db (.ohlc pair timeframe t) (by simp [Cell.table])
  exact hget.trans (if_congr (and_iff_right hf) rfl rfl)

theorem deletePrices_candles_of_notMem (b : BlockHeader) (db : DB) (pair : String)
    (hf : timeframe ∉ env.ohlcTimeframes) :
    candlesOf (deletePrices env b db) pair timeframe = candlesOf db pair timeframe := by
  funext t
  have hget := @deletePrices_get env b db (.ohlc pair timeframe t) (by simp [Cell.table])
  exact hget.trans (if_neg fun h => hf h.1)

/-- The tables after the block was indexed and deleted again. -/
private theorem undone_token {envd : Env} (hprice : PricedAt env market b.timestamp price)
    (t : TokenID) :
    (deletePrices envd b (addPrices env order market b db)).get (.token t) = db.get (.token t) :=
  (deletePrices_token t).trans (addPrices_token hprice t)

private theorem ticks_undone_iff {envd : Env} (hconfig : env.SameConfig env')
    (hconfigd : env.SameConfig envd) (hprice : PricedAt env market b.timestamp price)
    (hprice' : PricedAt env' market' b'.timestamp price') :
    ticksOf (addPrices env' order' market' b'
        (deletePrices envd b (addPrices env order market b db))) pair =
        ticksOf (addPrices env' order' market' b' db) pair ↔
      (Cleared db pair → ∀ t r, normalizeBlockTime b.timestamp env.tickTimeframe < t →
        db.get (.tickPrice pair t) = some r →
          t = normalizeBlockTime b'.timestamp env.tickTimeframe ∧
            tickOf env' market' price' b'.timestamp db pair = some r) ∧
      (db.get (.tickPrice pair (normalizeBlockTime b.timestamp env.tickTimeframe)) = none →
        ∀ r, tickOf env market price b.timestamp db pair = some r →
          normalizeBlockTime b'.timestamp env.tickTimeframe =
            normalizeBlockTime b.timestamp env.tickTimeframe ∧
              tickOf env' market' price' b'.timestamp db pair = some r) := by
  have hcleared : Cleared (addPrices env order market b db) pair ↔ Cleared db pair :=
    cleared_congr (addPrices_token hprice)
  rw [addPrices_ticks hprice', addPrices_ticks hprice', ticksWith, ticksWith,
    tickOf_congr (undone_token hprice), deletePrices_ticks, addPrices_ticks hprice, ticksWith,
    hconfig.tickTimeframe, hconfigd.tickTimeframe, insertAt_dropAfter_iff, hcleared]
  rfl

private theorem candles_undone_iff {envd : Env} (hconfig : env.SameConfig env')
    (hconfigd : env.SameConfig envd) (hprice : PricedAt env market b.timestamp price)
    (hprice' : PricedAt env' market' b'.timestamp price')
    (hf : timeframe ∈ env.ohlcTimeframes)
    (hticks : ticksOf (addPrices env' order' market' b'
        (deletePrices envd b (addPrices env order market b db))) pair =
      ticksOf (addPrices env' order' market' b' db) pair) :
    candlesOf (addPrices env' order' market' b'
        (deletePrices envd b (addPrices env order market b db))) pair timeframe =
        candlesOf (addPrices env' order' market' b' db) pair timeframe ↔
      (Cleared db pair → ∀ t r, normalizeBlockTime b.timestamp timeframe < t →
        db.get (.ohlc pair timeframe t) = some r →
          t = normalizeBlockTime b'.timestamp timeframe ∧
            candleOf env' market' price' b'.timestamp db pair timeframe = some r) ∧
      (db.get (.ohlc pair timeframe (normalizeBlockTime b.timestamp timeframe)) = none →
        ∀ r, candleOf env market price b.timestamp db pair timeframe = some r →
          normalizeBlockTime b'.timestamp timeframe = normalizeBlockTime b.timestamp timeframe ∧
            candleOf env' market' price' b'.timestamp db pair timeframe = some r) := by
  have hcleared : Cleared (addPrices env order market b db) pair ↔ Cleared db pair :=
    cleared_congr (addPrices_token hprice)
  have hf' : timeframe ∈ env'.ohlcTimeframes := hconfig.ohlcTimeframes ▸ hf
  have hfd : timeframe ∈ envd.ohlcTimeframes := hconfigd.ohlcTimeframes ▸ hf
  -- The second block finds the same ticks, so it brings the same candle.
  have hcandle : candleOf env' market' price' b'.timestamp
      (deletePrices envd b (addPrices env order market b db)) pair timeframe =
        candleOf env' market' price' b'.timestamp db pair timeframe := by
    rw [addPrices_ticks hprice', addPrices_ticks hprice'] at hticks
    rw [candleOf, candleOf, hticks]
    exact if_congr (listed_ticks_congr (undone_token hprice) hticks) rfl rfl
  rw [addPrices_candles hprice', addPrices_candles hprice', candlesWith, if_pos hf', candlesWith,
    if_pos hf', hcandle, deletePrices_candles _ _ _ hfd, addPrices_candles hprice, candlesWith,
    if_pos hf, insertAt_dropAfter_iff, hcleared]
  rfl

/-- **Undo of the price index.** A block `b` is indexed and deleted and a block `b'` is indexed.
The price rows are those of indexing `b'` alone **if and only if** for every pair nothing is
dropped that `b'` does not bring back, and `b` brings nothing that `b'` would not bring. -/
theorem prices_undone_iff {env envd env' : Env} {market market' : Market} {order order' : List ℕ}
    {price price' : String → ℚ} {b b' : BlockHeader} (hconfig : env.SameConfig env')
    (hconfigd : env.SameConfig envd) (hprice : PricedAt env market b.timestamp price)
    (hprice' : PricedAt env' market' b'.timestamp price') (db : DB) :
    SamePrices (addPrices env' order' market' b' db) (addPrices env' order' market' b'
        (deletePrices envd b (addPrices env order market b db))) ↔
      ∀ pair, PricesReturn env env' market market' price price' b b' db pair := by
  constructor
  · rintro ⟨hticks, hcandles⟩ pair
    have hsame := funext (hticks pair)
    obtain ⟨hlater, hown⟩ := (ticks_undone_iff hconfig hconfigd hprice hprice').mp hsame
    refine ⟨hlater, hown, fun f hf => ?_, fun f hf => ?_⟩
    · exact ((candles_undone_iff hconfig hconfigd hprice hprice' hf hsame).mp
        (funext (hcandles pair f))).1
    · exact ((candles_undone_iff hconfig hconfigd hprice hprice' hf hsame).mp
        (funext (hcandles pair f))).2
  · intro h
    have hticks : ∀ pair, ticksOf (addPrices env' order' market' b'
        (deletePrices envd b (addPrices env order market b db)))
        pair = ticksOf (addPrices env' order' market' b' db) pair := fun pair =>
      (ticks_undone_iff hconfig hconfigd hprice hprice').mpr ⟨(h pair).laterTicks, (h pair).ownTick⟩
    refine ⟨fun pair => congrFun (hticks pair), fun pair f => ?_⟩
    by_cases hf : f ∈ env.ohlcTimeframes
    · exact congrFun ((candles_undone_iff hconfig hconfigd hprice hprice' hf (hticks pair)).mpr
        ⟨(h pair).laterCandles f hf, (h pair).ownCandle f hf⟩)
    · -- The timeframe is not configured: nothing is written or dropped.
      have hf' : f ∉ env'.ohlcTimeframes := hconfig.ohlcTimeframes ▸ hf
      have hfd : f ∉ envd.ohlcTimeframes := hconfigd.ohlcTimeframes ▸ hf
      refine congrFun (f := candlesOf _ pair f) (g := candlesOf _ pair f) ?_
      rw [addPrices_candles hprice', addPrices_candles hprice', candlesWith, if_neg hf',
        candlesWith, if_neg hf', deletePrices_candles_of_notMem _ _ _ hfd,
        addPrices_candles hprice, candlesWith, if_neg hf]

end Undo

/-! ### Two blocks for one height -/

/-- Every pair has the price 2. -/
def quotedEnv : Env :=
  { (default : Env) with getPrice := fun _ _ _ => 2, ohlcTimeframes := ["1h"] }

/-- The market has the price 2. -/
def quotedMarket : Market := fun _ lo _ => some [⟨lo, 2, 2, 2, 2⟩]

/-- A block on top of genesis. -/
def headerAt (id : BlockID) (timestamp : ℕ) : BlockHeader :=
  ⟨id, 1, timestamp, "generator", "genesis", 0, false⟩

section Witness

private theorem pricedAt_quotedEnv (timestamp : ℕ) :
    PricedAt quotedEnv quotedMarket timestamp fun _ => 2 := by
  refine ⟨fun _ _ _ _ _ => rfl, fun klyCandles hmarket => ?_⟩
  obtain rfl := Option.some.inj hmarket
  rfl

private theorem sameConfig_quotedEnv : quotedEnv.SameConfig quotedEnv := ⟨rfl, rfl, rfl⟩

private theorem onePoolDB_prices (pair timeframe : String) (t : ℕ) :
    onePoolDB.get (.tickPrice pair t) = none ∧ onePoolDB.get (.ohlc pair timeframe t) = none := by
  constructor
  · rfl
  · rfl

end Witness

/-- Two blocks of the same minute with the same prices. -/
theorem prices_undone_sameMinute :
    SamePrices (addPrices quotedEnv [] quotedMarket (headerAt "b'" 20) onePoolDB)
      (addPrices quotedEnv [] quotedMarket (headerAt "b'" 20)
        (deletePrices quotedEnv (headerAt "b" 10)
          (addPrices quotedEnv [] quotedMarket (headerAt "b" 10) onePoolDB))) := by
  refine (prices_undone_iff sameConfig_quotedEnv sameConfig_quotedEnv (pricedAt_quotedEnv _)
    (pricedAt_quotedEnv _) _).mpr fun pair => ?_
  refine ⟨fun _ t r _ hr => ?_, fun _ r hr => ⟨rfl, hr⟩, fun f _ _ t r _ hr => ?_,
    fun f hf _ r hr => ?_⟩
  · simp [(onePoolDB_prices pair "" t).1] at hr
  · simp [(onePoolDB_prices pair f t).2] at hr
  · obtain rfl := List.mem_singleton.mp hf
    exact ⟨rfl, hr⟩

/-- The tick of the deleted block stays when its successor falls into the next minute. -/
theorem tick_of_deleted_block_stays :
    quotedEnv.SameConfig quotedEnv ∧
      (∀ timestamp, PricedAt quotedEnv quotedMarket timestamp fun _ => 2) ∧
      (addPrices quotedEnv [] quotedMarket (headerAt "b'" 70) onePoolDB).get
        (.tickPrice "btckly" 0) = none ∧
      (addPrices quotedEnv [] quotedMarket (headerAt "b'" 70)
        (deletePrices quotedEnv (headerAt "b" 10)
          (addPrices quotedEnv [] quotedMarket (headerAt "b" 10) onePoolDB))).get
            (.tickPrice "btckly" 0) =
          some ⟨2⟩ := by
  exact ⟨sameConfig_quotedEnv, pricedAt_quotedEnv, by decide +kernel, by decide +kernel⟩

end SwaptoshiService
