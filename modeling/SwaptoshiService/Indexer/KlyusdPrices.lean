import SwaptoshiService.Indexer.PriceIndexer

/-!
# The KLYUSD prices

The jobs of the three price queues (`dataService/dex/priceIndexer.js`): the **live** job
`indexCurrentKLYUSDPrice`, which `addPriceIndex` enqueues for every block, and the **historical**
jobs `indexPreviousKLYUSDTickPrice` and `indexPreviousKLYUSDOhlcPrice`, which
`addGenesisPriceIndex` enqueues once for each batch of candles between the genesis block and now.
None of them has a transaction: every statement is committed at once.

A historical job asks the market for the candles of its batch and looks up the row of the
**first** one; if it is there the job is taken to be done already.
-/

namespace SwaptoshiService

/-- A candle of the market; the volume is not read. -/
structure Candle where
  start : ℕ
  «open» : ℚ
  high : ℚ
  low : ℚ
  close : ℚ
  deriving DecidableEq, Repr

/-- `requestMarket('candlestick', { symbol: 'KLYUSDT', interval, start, end })`, by interval,
start and end; `none` is a request that fails. -/
abbrev Market := String → ℕ → ℕ → Option (List Candle)

/-- The failure of a request to the market. -/
def marketUnavailable : Failure := .error "All market source not available at the moment"

/-- `getKLYUSDPriceAtTimestamp(timestamp)` (`dataService/dex/klyPrices.js`). -/
def getKLYUSDPriceAtTimestamp (market : Market) (timestamp : ℕ) : Prog (Option ℚ) := do
  let klyCandles ← .ofOption marketUnavailable (market "1m" timestamp timestamp)
  pure (klyCandles.head?.map (·.open))

/-- `getKLYUSDCandles(start, end, interval)` (`dataService/dex/klyPrices.js`). -/
def getKLYUSDCandles (market : Market) (lo hi : ℕ) (interval : String) : Prog (List Candle) :=
  .ofOption marketUnavailable (market interval lo hi)

/-! ### The live job -/

/-- `indexKLYUSDTickPrice(job)`. -/
def indexKLYUSDTickPrice (env : Env) (market : Market) (timestamp : ℕ) : Prog Unit := do
  let time := normalizeBlockTime timestamp env.tickTimeframe
  let row ← Table.find .default (.tickPrice "klyusd" time)
  if row.isSome then pure ()
  else
    let value ← getKLYUSDPriceAtTimestamp market time
    -- The source skips an undefined price and a zero one alike.
    match value with
    | some value =>
      if value = 0 then pure ()
      else Table.upsert .default (.tickPrice "klyusd" time) fun _ => ⟨toDecimal value⟩
    | none => pure ()

/-- `indexKLYUSDOhlcPrice(job)`; the timeframes are processed concurrently. -/
def indexKLYUSDOhlcPrice (env : Env) (order : List ℕ) (timestamp : ℕ) : Prog Unit :=
  Async.interleave order (env.ohlcTimeframes.map (indexOhlc env .default timestamp "klyusd"))

/-- `indexCurrentKLYUSDPrice(job)`. -/
def indexCurrentKLYUSDPrice (env : Env) (order : List ℕ) (market : Market) (timestamp : ℕ) :
    Prog Unit := do
  indexKLYUSDTickPrice env market timestamp
  indexKLYUSDOhlcPrice env order timestamp

/-! ### The historical jobs -/

/-- Write the rows of the candles concurrently, unless the first of them has one. -/
def indexPreviousCandles (order : List ℕ) (cell : ℕ → Cell) [∀ t, Inhabited (Row (cell t))]
    (row : (c : Candle) → Row (cell c.start)) (klyCandles : List Candle) : Prog Unit := do
  let indexed ← match klyCandles with
    | [] => pure false
    | c :: _ => do
      let priceAtTimestamp ← Table.find .default (cell c.start)
      pure priceAtTimestamp.isSome
  -- already indexed, return
  if indexed then pure ()
  else
    Async.interleave order
      (klyCandles.map fun c => Table.upsert .default (cell c.start) fun _ => row c)

/-- The tick that a candle stands for. -/
def Candle.tick (c : Candle) : TickPriceRow := ⟨toDecimal c.open⟩

/-- The row of a candle in an OHLC table. -/
def Candle.ohlc (c : Candle) : OhlcRow :=
  ⟨toDecimal c.open, toDecimal c.high, toDecimal c.low, toDecimal c.close⟩

/-- `indexPreviousKLYUSDTickPrice(job)`. -/
def indexPreviousKLYUSDTickPrice (env : Env) (order : List ℕ) (market : Market) (lo hi : ℕ) :
    Prog Unit := do
  let klyCandles ← getKLYUSDCandles market lo hi env.tickTimeframe
  indexPreviousCandles order (.tickPrice "klyusd") Candle.tick klyCandles

/-- `indexPreviousKLYUSDOhlcPrice(job)`. -/
def indexPreviousKLYUSDOhlcPrice (order : List ℕ) (market : Market) (timeframe : String)
    (lo hi : ℕ) : Prog Unit := do
  let klyCandles ← getKLYUSDCandles market lo hi timeframe
  indexPreviousCandles order (.ohlc "klyusd" timeframe) Candle.ohlc klyCandles

/-- A job of one of the historical queues. -/
inductive PreviousJob
  | tick (lo hi : ℕ)
  | ohlc (timeframe : String) (lo hi : ℕ)
  deriving DecidableEq, Repr

namespace PreviousJob

/-- The row at a time in the table that the job fills. -/
def cell : PreviousJob → ℕ → Cell
  | .tick _ _ => .tickPrice "klyusd"
  | .ohlc timeframe _ _ => .ohlc "klyusd" timeframe

instance (job : PreviousJob) (t : ℕ) : Inhabited (Row (job.cell t)) :=
  match job with
  | .tick _ _ => inferInstanceAs (Inhabited TickPriceRow)
  | .ohlc _ _ _ => inferInstanceAs (Inhabited OhlcRow)

/-- The answer of the market for the batch. -/
def candles (env : Env) (market : Market) : PreviousJob → Option (List Candle)
  | .tick lo hi => market env.tickTimeframe lo hi
  | .ohlc timeframe lo hi => market timeframe lo hi

/-- What the queue runs for the job. -/
def program (env : Env) (order : List ℕ) (market : Market) : PreviousJob → Prog Unit
  | .tick lo hi => indexPreviousKLYUSDTickPrice env order market lo hi
  | .ohlc timeframe lo hi => indexPreviousKLYUSDOhlcPrice order market timeframe lo hi

end PreviousJob

/-- `MAX_PREVIOUS_KLYUSD_INDEX_BATCH`. -/
def maxPreviousKLYUSDIndexBatch : ℕ := 720

/-- The values of the loop variable of `addGenesisPriceIndex` for a timeframe; the loop ends
because the timeframe has a positive length. -/
def batchStarts (timestamp currentTimestamp second : ℕ) : List ℕ :=
  let width := second * maxPreviousKLYUSDIndexBatch
  List.range' timestamp ((currentTimestamp - timestamp + (width - 1)) / width) width

/-- The bounds of the batch that starts at a loop value. -/
def batchBounds (timeframe : String) (i : ℕ) : ℕ × ℕ :=
  let lo := normalizeBlockTime i timeframe
  (lo, lo + (intervalToSecond timeframe).getD 0 * maxPreviousKLYUSDIndexBatch - 1)

/-- `addGenesisPriceIndex(block, dbTrx)`: the jobs it enqueues. -/
def addGenesisPriceIndex (env : Env) (timestamp currentTimestamp : ℕ) : List PreviousJob :=
  let batches (timeframe : String) :=
    (batchStarts timestamp currentTimestamp ((intervalToSecond timeframe).getD 0)).map
      (batchBounds timeframe)
  (batches env.tickTimeframe).map (fun b => .tick b.1 b.2) ++
    env.ohlcTimeframes.flatMap fun timeframe =>
      (batches timeframe).map fun b => .ohlc timeframe b.1 b.2

/-- The jobs that indexing a block enqueues: `addGenesisPriceIndex` those of the batches,
`addPriceIndex` the live one. They run on their own, whatever becomes of the block. -/
def queuedPriceJobs (env : Env) (order : List ℕ) (market : Market) (currentTimestamp : ℕ)
    (header : BlockHeader) : List (Prog Unit) :=
  if header.height = env.genesisHeight then
    (addGenesisPriceIndex env header.timestamp currentTimestamp).map fun job =>
      job.program env order market
  else [indexCurrentKLYUSDPrice env order market header.timestamp]

end SwaptoshiService
