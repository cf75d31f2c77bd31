import Mathlib.Algebra.Order.Ring.Unbundled.Rat
import SwaptoshiService.Indexer.Env

/-!
# The price index

`addPriceIndex` and `deletePriceIndex` (`dataService/dex/priceIndexer.js`). The functions below
take the connection their `dbTrx` argument stands for. `addPriceIndex` hands `dbTrx` on to
`indexTokenPrice`, whose parameter list **ends before it**: the tick, OHLC and last price rows of
the tokens are therefore written on the default connection; only the last `updateLastPrice`, for
the KLY token, runs on the transaction.

`addGenesisPriceIndex` only enqueues jobs and changes no table. The job that `addPriceIndex`
enqueues for the KLYUSD prices is a program of its own, `indexCurrentKLYUSDPrice`.
-/

namespace SwaptoshiService

/-- `updateLastPrice(baseTokenId, pair, time, dbTrx)`. -/
def updateLastPrice (env : Env) (conn : Conn) (baseTokenId : TokenID) (pair : String)
    (time : ℕ) : Prog Unit := do
  let row ← Table.find conn (.lastPrice baseTokenId)
  if row.any fun r => r.updatedOn == time then pure ()
  else
    let lastPrice ← Session.query .default fun db => env.getLastPrice db pair time
    match lastPrice with
    | some lastPrice => Table.upsert conn (.lastPrice baseTokenId) fun _ => lastPrice
    | none => pure ()

/-- The pair of two registered tokens, read on the default connection; an unregistered token
aborts the caller with a warning. -/
def withPair (baseTokenId quoteTokenId : TokenID) (k : String → Prog Unit) : Prog Unit := do
  let base ← Table.find .default (.token baseTokenId)
  let quote ← Table.find .default (.token quoteTokenId)
  match base, quote with
  | some base, some quote => k (base.symbol ++ quote.symbol).toLower
  | _, _ => pure ()

/-- `indexTokenLastPrice(timestamp, baseTokenId, quoteTokenId, dbTrx)`. -/
def indexTokenLastPrice (env : Env) (conn : Conn) (timestamp : ℕ)
    (baseTokenId quoteTokenId : TokenID) : Prog Unit :=
  if quoteTokenId ≠ env.klyTokenID then .throw (.error "quoting last price only supported on KLY")
  else withPair baseTokenId quoteTokenId fun pair =>
    updateLastPrice env conn baseTokenId pair (normalizeBlockTime timestamp env.lastPriceInterval)

/-- `indexTokenTickPrice(timestamp, baseTokenId, quoteTokenId, dbTrx)`. -/
def indexTokenTickPrice (env : Env) (conn : Conn) (timestamp : ℕ)
    (baseTokenId quoteTokenId : TokenID) : Prog Unit :=
  withPair baseTokenId quoteTokenId fun pair => do
    let time := normalizeBlockTime timestamp env.tickTimeframe
    let row ← Table.find conn (.tickPrice pair time)
    if row.isSome then pure ()
    else
      let value ← Session.query conn fun db => env.getPrice db baseTokenId quoteTokenId
      if value ≠ 0 then Table.upsert conn (.tickPrice pair time) fun _ => ⟨toDecimal value⟩
      else pure ()

/-! ### Candles -/

/-- The ticks with `time BETWEEN lo AND hi`, by time. -/
def ticksBetween (ticks : ℕ → Option TickPriceRow) (lo hi : ℕ) : List (ℕ × ℚ) :=
  (List.range' lo (hi + 1 - lo)).filterMap fun t => (ticks t).map fun r => (t, r.value)

/-- The first, the highest, the lowest and the last of a list of values. -/
def candle : List ℚ → Option OhlcRow
  | [] => none
  | v :: vs => some ⟨v, vs.foldl max v, vs.foldl min v, vs.getLastD v⟩

/-- The candles of the query of `transformTickToOhlc`, one for each `FLOOR(time/second)`. -/
def candles (ticks : ℕ → Option TickPriceRow) (second lo hi : ℕ) : List OhlcRow :=
  let rows := ticksBetween ticks lo hi
  (rows.map fun r => r.1 / second).eraseDups.filterMap fun openTime =>
    candle ((rows.filter fun r => r.1 / second = openTime).map (·.2))

/-- `transformTickToOhlc(pair, timeframe, from, to)` (`dataService/dex/priceQuoter.js`) on the
rows it sees. -/
def transformTickToOhlc (env : Env) (db : DB) (pair timeframe : String) (lo hi : ℕ) :
    List OhlcRow :=
  env.rowOrder (candles (fun t => db.get (.tickPrice pair t))
    ((intervalToSecond timeframe).getD 0) lo hi)

/-- The candle of one timeframe. -/
def indexOhlc (env : Env) (conn : Conn) (timestamp : ℕ) (pair timeframe : String) :
    Prog Unit := do
  let time := normalizeBlockTime timestamp timeframe
  let previousTime := time - (intervalToSecond timeframe).getD 0
  let row ← Table.find conn (.ohlc pair timeframe time)
  if row.isSome then pure ()
  else
    let ohlc ← Session.query conn fun db =>
      transformTickToOhlc env db pair timeframe previousTime time
    match ohlc with
    | row :: _ => Table.upsert conn (.ohlc pair timeframe time) fun _ => row
    | [] => pure ()

/-- `indexTokenOhlcPrice(timestamp, baseTokenId, quoteTokenId, dbTrx)`. -/
def indexTokenOhlcPrice (env : Env) (conn : Conn) (timestamp : ℕ)
    (baseTokenId quoteTokenId : TokenID) : Prog Unit :=
  withPair baseTokenId quoteTokenId fun pair =>
    Async.interleave (env.sched (.ohlcTimeframes baseTokenId))
      (env.ohlcTimeframes.map (indexOhlc env conn timestamp pair))

/-- `indexTokenPrice(timestamp, baseTokenId, quoteTokenId)`. -/
def indexTokenPrice (env : Env) (timestamp : ℕ) (baseTokenId quoteTokenId : TokenID) :
    Prog Unit := do
  indexTokenTickPrice env .default timestamp baseTokenId quoteTokenId
  indexTokenOhlcPrice env .default timestamp baseTokenId quoteTokenId
  indexTokenLastPrice env .default timestamp baseTokenId quoteTokenId

/-- Index the prices of one registered token. -/
def indexRegisteredToken (env : Env) (timestamp : ℕ) (tokenId : TokenID) : Prog Unit :=
  if tokenId ≠ env.klyTokenID then indexTokenPrice env timestamp tokenId env.klyTokenID
  else pure ()

/-- `addPriceIndex(block, dbTrx)`, without the job it enqueues. -/
def addPriceIndex (env : Env) (header : BlockHeader) : Prog Unit := do
  let tokens ← Session.query .default env.listTokens
  Async.interleave (env.sched (.priceTokens header.id))
    (tokens.map (indexRegisteredToken env header.timestamp))
  updateLastPrice env .dbTrx env.klyTokenID "klyusd"
    (normalizeBlockTime header.timestamp env.lastPriceInterval)

/-! ### Deletion -/

/-- The tick prices of a pair after a time. -/
def tickPricesAfter (pair : String) (time : ℕ) (c : Cell) : Row c → Bool :=
  match c with
  | .tickPrice p t => fun _ => p == pair && decide (time < t)
  | _ => fun _ => false

/-- The candles of a pair and timeframe after a time. -/
def ohlcAfter (pair timeframe : String) (time : ℕ) (c : Cell) : Row c → Bool :=
  match c with
  | .ohlc p f t => fun _ => p == pair && f == timeframe && decide (time < t)
  | _ => fun _ => false

/-- `deleteTickPriceIndex(token, block, dbTrx)`. -/
def deleteTickPriceIndex (env : Env) (symbol : String) (timestamp : ℕ) : Prog Unit :=
  Session.exec .dbTrx (Table.deleteWhere
    (tickPricesAfter (symbol.toLower ++ "kly") (normalizeBlockTime timestamp env.tickTimeframe)))

/-- `deleteOhlcPriceIndex(token, block, dbTrx)`. -/
def deleteOhlcPriceIndex (env : Env) (tokenId : TokenID) (symbol : String) (timestamp : ℕ) :
    Prog Unit :=
  Async.interleave (env.sched (.ohlcTimeframes tokenId)) (env.ohlcTimeframes.map fun timeframe =>
    Session.exec .dbTrx (Table.deleteWhere
      (ohlcAfter (symbol.toLower ++ "kly") timeframe (normalizeBlockTime timestamp timeframe))))

/-- The registered tokens with their symbols. -/
def tokensWithSymbols (env : Env) (db : DB) : List (TokenID × String) :=
  (env.listTokens db).filterMap fun t => (db.get (.token t)).map fun r => (t, r.symbol)

/-- `deletePriceIndex(block, dbTrx)`. -/
def deletePriceIndex (env : Env) (header : BlockHeader) : Prog Unit := do
  let tokens ← Session.query .default (tokensWithSymbols env)
  Async.interleave (env.sched (.priceTokens header.id)) (tokens.map fun (tokenId, symbol) => do
    deleteTickPriceIndex env symbol header.timestamp
    deleteOhlcPriceIndex env tokenId symbol header.timestamp
    indexTokenLastPrice env .dbTrx header.timestamp tokenId env.klyTokenID)
  updateLastPrice env .dbTrx env.klyTokenID "klyusd"
    (normalizeBlockTime header.timestamp env.lastPriceInterval)

/-! ### What price indexing may change -/

section Footprints

open Session

/-- The rows that price indexing writes, on either connection. -/
def priceWrites : Conn → Cell → Prop := fun _ c =>
  c.table = .tickPrice ∨ c.table = .ohlc ∨ c.table = .lastPrice

variable {env : Env}

private theorem confined_updateLastPrice (conn : Conn) (t : TokenID) (pair : String) (time : ℕ) :
    Confined (Respects priceWrites) (updateLastPrice env conn t pair time) := by
  refine Table.confined_find.bind fun row => ?_
  split
  · exact confined_pure ()
  · refine (confined_query _ _).bind fun lastPrice => ?_
    split
    · exact Table.confined_upsert (.inr (.inr rfl))
    · exact confined_pure ()

private theorem confined_withPair {P : Conn → Stmt → Prop} (base quote : TokenID)
    {k : String → Prog Unit} (hk : ∀ pair, Confined P (k pair)) :
    Confined P (withPair base quote k) := by
  refine (confined_findRow _ _).bind fun b => (confined_findRow _ _).bind fun q => ?_
  split
  · exact hk _
  · exact confined_pure ()

private theorem confined_indexTokenLastPrice (conn : Conn) (timestamp : ℕ)
    (base quote : TokenID) :
    Confined (Respects priceWrites) (indexTokenLastPrice env conn timestamp base quote) := by
  rw [indexTokenLastPrice]
  split
  · exact confined_throw _
  · exact confined_withPair _ _ fun pair => confined_updateLastPrice _ _ _ _

private theorem confined_indexTokenTickPrice (conn : Conn) (timestamp : ℕ)
    (base quote : TokenID) :
    Confined (Respects priceWrites) (indexTokenTickPrice env conn timestamp base quote) := by
  refine confined_withPair _ _ fun pair => Table.confined_find.bind fun row => ?_
  split
  · exact confined_pure ()
  · refine (confined_query _ _).bind fun value => ?_
    split
    · exact Table.confined_upsert (.inl rfl)
    · exact confined_pure ()

private theorem confined_indexOhlc (conn : Conn) (timestamp : ℕ) (pair timeframe : String) :
    Confined (Respects priceWrites) (indexOhlc env conn timestamp pair timeframe) := by
  refine Table.confined_find.bind fun row => ?_
  split
  · exact confined_pure ()
  · refine (confined_query _ _).bind fun ohlc => ?_
    split
    · exact Table.confined_upsert (.inr (.inl rfl))
    · exact confined_pure ()

private theorem confined_indexRegisteredToken (timestamp : ℕ) (t : TokenID) :
    Confined (Respects priceWrites) (indexRegisteredToken env timestamp t) := by
  rw [indexRegisteredToken]
  split
  · refine (confined_indexTokenTickPrice _ _ _ _).bind fun _ => Confined.bind ?_ fun _ =>
      confined_indexTokenLastPrice _ _ _ _
    refine confined_withPair _ _ fun pair => Confined.interleave fun p hp => ?_
    obtain ⟨timeframe, -, rfl⟩ := List.mem_map.mp hp
    exact confined_indexOhlc _ _ _ _
  · exact confined_pure ()

theorem addPriceIndex_confined (header : BlockHeader) :
    Confined (Respects priceWrites) (addPriceIndex env header) := by
  refine (confined_query _ _).bind fun tokens => Confined.bind ?_ fun _ =>
    confined_updateLastPrice _ _ _ _
  refine Confined.interleave fun p hp => ?_
  obtain ⟨t, -, rfl⟩ := List.mem_map.mp hp
  exact confined_indexRegisteredToken _ _

private theorem tickPricesAfter_table {pair : String} {time : ℕ} (c : Cell) (r : Row c)
    (h : tickPricesAfter pair time c r = true) : c.table = .tickPrice := by
  cases c with
  | tickPrice p t => rfl
  | _ => exact absurd h Bool.false_ne_true

private theorem ohlcAfter_table {pair timeframe : String} {time : ℕ} (c : Cell) (r : Row c)
    (h : ohlcAfter pair timeframe time c r = true) : c.table = .ohlc := by
  cases c with
  | ohlc p f t => rfl
  | _ => exact absurd h Bool.false_ne_true

theorem deletePriceIndex_confined (header : BlockHeader) :
    Confined (Respects priceWrites) (deletePriceIndex env header) := by
  refine (confined_query _ _).bind fun tokens => Confined.bind ?_ fun _ =>
    confined_updateLastPrice _ _ _ _
  refine Confined.interleave fun p hp => ?_
  obtain ⟨t, -, rfl⟩ := List.mem_map.mp hp
  refine Confined.bind (Table.confined_deleteWhere fun c r h => ?_) fun _ =>
    Confined.bind (Confined.interleave fun p hp => ?_) fun _ =>
    confined_indexTokenLastPrice _ _ _ _
  · exact .inl (tickPricesAfter_table c r h)
  · obtain ⟨timeframe, -, rfl⟩ := List.mem_map.mp hp
    exact Table.confined_deleteWhere fun c r h => .inr (.inl (ohlcAfter_table c r h))

end Footprints

end SwaptoshiService
