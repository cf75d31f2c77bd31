import SwaptoshiService.Indexer.Env

/-!
# Swap events

`applySwapEvent` and `revertSwapEvent` (`indexer/utils/swapProcess.js`) run one asynchronous
function for every swap event of a block, all of them concurrently. The volume row is written on
`dbTrx`; the updates of the two pool rows and of `last_price` **leave the transaction out**.

The two functions differ in what they do to the volume row and in which tick and liquidity they
write, so both are instances of `processSwap`.
-/

namespace SwaptoshiService

open Async (ofOption)

/-- The volume row of a swap event. -/
def volumeRow (header : BlockHeader) (e : SwapEvent) : VolumeRow :=
  { poolAddress := e.poolAddress
    sender := e.data.senderAddress
    recipient := e.data.recipientAddress
    time := header.timestamp
    amount0 := e.data.amount0
    amount1 := e.data.amount1
    feeGrowth0 := decodeFeeGrowth
      (e.data.feeGrowthGlobal0X128 - e.data.feeGrowthGlobal0X128Before) e.data.liquidity
    feeGrowth1 := decodeFeeGrowth
      (e.data.feeGrowthGlobal1X128 - e.data.feeGrowthGlobal1X128Before) e.data.liquidity }

/-- Write price, tick and liquidity of one pool row. -/
def setPool (price : ℚ) (state : PoolState) (r : PoolRow) : PoolRow :=
  { r with price, tick := state.tick, liquidity := state.liquidity }

/-- Update the row of each orientation of a pool. -/
def updatePoolRows (env : Env) (key : PoolKey) (decimals0 decimals1 : ℕ) (state : PoolState) :
    Prog Unit := do
  Table.update .default (.pool key.token0 key.token1 key.fee)
    (setPool (env.getPriceAtTick state.tick decimals0 decimals1 false) state)
  Table.update .default (.pool key.token1 key.token0 key.fee)
    (setPool (env.getPriceAtTick state.tick decimals0 decimals1 true) state)

/-- Update the current price of a token, unless it is the quote token itself. -/
def updateCurrentPrice (env : Env) (tokenId : TokenID) : Prog Unit :=
  if tokenId = env.klyTokenID then pure ()
  else do
    let price ← Session.query .default fun db => env.getPrice db tokenId env.klyTokenID
    Table.update .default (.lastPrice tokenId) fun r => { r with current := price }

/-- The common body: look the tokens up, write the volume row, log it with the symbols, update
both pool rows and the prices of the two tokens. -/
def processSwap (env : Env) (volume : SwapEvent → Prog Unit) (state : SwapEvent → PoolState)
    (e : SwapEvent) : Prog Unit := do
  let key := env.decodePoolAddress e.poolAddress
  let token0 ← Table.find .dbTrx (.token key.token0)
  let token1 ← Table.find .dbTrx (.token key.token1)
  volume e
  let token0 : TokenRow ← ofOption .typeError token0
  let token1 : TokenRow ← ofOption .typeError token1
  updatePoolRows env key token0.decimal token1.decimal (state e)
  updateCurrentPrice env key.token0
  updateCurrentPrice env key.token1

/-- The function `applySwapEvent` maps over the events. -/
def applySwap (env : Env) (header : BlockHeader) : SwapEvent → Prog Unit :=
  processSwap env
    (fun e => Table.upsert .dbTrx (.volume e.height e.index) fun _ => volumeRow header e)
    fun e => ⟨e.data.liquidity, e.data.tick⟩

/-- The function `revertSwapEvent` maps over the events. -/
def revertSwap (env : Env) (header : BlockHeader) : SwapEvent → Prog Unit :=
  processSwap env
    (fun e => Table.delete .dbTrx (.volume e.height e.index) fun r =>
      decide (r = volumeRow header e))
    fun e => ⟨e.data.liquidityBefore, e.data.tickBefore⟩

/-- `applySwapEvent(blockHeader, events, dbTrx)`, with the order in which the concurrent steps
are made. -/
def applySwapEvent (env : Env) (sched : List ℕ) (header : BlockHeader) (events : List Event) :
    Prog Unit :=
  Async.interleave sched ((swapEvents events).map (applySwap env header))

/-- `revertSwapEvent(blockHeader, events, dbTrx)`. -/
def revertSwapEvent (env : Env) (sched : List ℕ) (header : BlockHeader) (events : List Event) :
    Prog Unit :=
  Async.interleave sched ((swapEvents events).map (revertSwap env header))

/-! ### What swap processing may change -/

section Footprints

open Session

/-- The rows that swap processing writes: volume rows on the transaction, pool rows and current
prices on the default connection. -/
def swapWrites : Conn → Cell → Prop
  | .dbTrx, c => c.table = .volume
  | .default, c => c.table = .pool ∨ c.table = .lastPrice

variable {env : Env} {header : BlockHeader}

theorem updateCurrentPrice_confined {W : Conn → Cell → Prop} {t : TokenID}
    (h : W .default (.lastPrice t)) : Confined (Respects W) (updateCurrentPrice env t) := by
  rw [updateCurrentPrice]
  split
  · exact confined_pure ()
  · exact (confined_query _ _).bind fun _ => Table.confined_update h

private theorem confined_processSwap {volume : SwapEvent → Prog Unit}
    {state : SwapEvent → PoolState} (e : SwapEvent)
    (hv : Confined (Respects swapWrites) (volume e)) :
    Confined (Respects swapWrites) (processSwap env volume state e) := by
  refine Table.confined_find.bind fun t0 => Table.confined_find.bind fun t1 => hv.bind fun _ =>
    (confined_ofOption _ t0).bind fun t0 => (confined_ofOption _ t1).bind fun t1 => ?_
  have hpool : Confined (Respects swapWrites)
      (updatePoolRows env (env.decodePoolAddress e.poolAddress) t0.decimal t1.decimal (state e)) :=
    (Table.confined_update (.inl rfl)).bind fun _ => Table.confined_update (.inl rfl)
  exact hpool.bind fun _ => (updateCurrentPrice_confined (.inr rfl)).bind fun _ =>
    updateCurrentPrice_confined (.inr rfl)

theorem applySwap_confined (e : SwapEvent) :
    Confined (Respects swapWrites) (applySwap env header e) :=
  confined_processSwap e (Table.confined_upsert rfl)

theorem applySwapEvent_confined (sched : List ℕ) (events : List Event) :
    Confined (Respects swapWrites) (applySwapEvent env sched header events) := by
  refine Confined.interleave fun p hp => ?_
  obtain ⟨e, -, rfl⟩ := List.mem_map.mp hp
  exact applySwap_confined e

theorem revertSwapEvent_confined (sched : List ℕ) (events : List Event) :
    Confined (Respects swapWrites) (revertSwapEvent env sched header events) := by
  refine Confined.interleave fun p hp => ?_
  obtain ⟨e, -, rfl⟩ := List.mem_map.mp hp
  exact confined_processSwap e (Table.confined_delete rfl)

end Footprints

end SwaptoshiService
