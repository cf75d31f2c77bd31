import Mathlib.Order.Lattice.Nat
import SwaptoshiService.Indexer.IndexBlock

/-!
# The job `deleteIndexedBlocks`

`deleteIndexedBlocks` (`indexer/blockchainIndex.js`) removes every indexed block from the lowest
height of the job on, in one transaction. For each block the effects of its transactions are
reverted, then the rows and counters that `indexBlock` derived from its events are taken back, and
at the end the rows of `blocks` are deleted by identifier.

Both loops are calls of Bluebird's `map` with concurrency 1, and these do **not** follow the list
(`mapOrder`): of the blocks, listed from the highest one down, the highest comes first, then the
lowest, and so on upwards; of the transactions of a block the first comes first, then the last, and
so on downwards.
-/

namespace SwaptoshiService

open Async (ofOption mapOrder)

/-- `getBlocksToDelete(blocks)`: all rows from the lowest height of the job on, highest
first. -/
def getBlocksToDelete (heights : List ℕ) (db : DB) : List (ℕ × BlockRow) :=
  match heights.min? with
  | none => []
  | some lowest =>
    ((List.range (db.keys.sup Cell.height + 1)).reverse.filter fun h => lowest ≤ h).filterMap
      fun h => (db.get (.block h)).map fun r => (h, r)

/-- The columns of a block row that the reverting functions read. -/
def headerOfRow (height : ℕ) (r : BlockRow) : BlockHeader :=
  { id := r.id
    height
    timestamp := r.timestamp
    generatorAddress := r.generatorAddress
    previousBlockID := ""
    size := r.size
    isFinal := r.isFinal }

/-- What the node and the event store answer during a deletion job. -/
structure DeletionView where
  /-- `getBlockByID(id)`. -/
  blockByID : BlockID → Option Block
  /-- `getEventsByBlockID(id)`. -/
  eventsByID : BlockID → List Event
  /-- `getEventsByHeight(height)`. -/
  eventsByHeight : ℕ → List Event

/-- `formatTransactionsInBlock(block)`: the execution status is read from the index, or else
from the events at the block's height. -/
def formatTransaction (view : DeletionView) (db : DB) (block : Block) (index : ℕ)
    (tx : Transaction) : Option IndexedTx :=
  let status : Option ExecutionStatus :=
    match (db.get (.transaction tx.id) : Option TransactionRow) with
    | some r => some r.executionStatus
    | none => getTransactionExecutionStatus tx (view.eventsByHeight block.header.height)
  status.map fun executionStatus => { tx with index, senderAddress := none, executionStatus }

/-- `getTransactionsByBlockID(id)`. -/
def getTransactionsByBlockID (view : DeletionView) (id : BlockID) (db : DB) :
    Option (List IndexedTx) := do
  let block ← view.blockByID id
  (block.transactions.mapIdx fun i tx => formatTransaction view db block i tx).mapM fun o => o

/-- The transactions that the index lists for a block. -/
def transactionsOfBlock (id : BlockID) (db : DB) (c : Cell) : Row c → Bool :=
  match c with
  | .transaction txID => fun _ =>
    (db.get (.transaction txID) : Option TransactionRow).any fun r => r.blockID == id
  | _ => fun _ => false

/-- Revert the transactions of a block, one at a time. -/
def revertTransactions (env : Env) (header : BlockHeader) (events : List Event)
    (txs : List IndexedTx) : Prog Unit :=
  Async.serial ((mapOrder txs).map (revertTransaction env header events))

/-- The part of the deletion that is skipped for a block without events. -/
def deleteBlockEvents (env : Env) (header : BlockHeader) (events : List Event) : Prog Unit :=
  if events.isEmpty then pure ()
  else do
    deleteEvents events
    updateGeneratorRewards (-1) header events
    updateTotalLockedAmounts (env.sched (.lockedAmounts header.id))
      (lockedAmountChangeMap (-1) events)

/-- The function `deleteIndexedBlocks` maps over the blocks. -/
def deleteBlock (env : Env) (view : DeletionView) (height : ℕ) (row : BlockRow) :
    Prog Unit := do
  let blockFromDB ← Table.find .default (.block height)
  if blockFromDB.isNone then pure ()
  else
    let header := headerOfRow height row
    let events := view.eventsByID row.id
    let txs ← Session.query .default (getTransactionsByBlockID view row.id)
    let txs ← ofOption (eventUnavailable row.id) txs
    revertTransactions env header events txs
    let db ← Session.query .default fun db => db
    Session.exec .dbTrx (Table.deleteWhere (transactionsOfBlock row.id db))
    decrementGeneratedBlocks row.generatorAddress
    deleteBlockEvents env header events
    revertSwapEvent env (env.sched (.swapEvents row.id)) header events
    deletePriceIndex env header

/-- `blocksTable.delete({ whereIn: { property: 'id', values } })`. -/
def blocksWithIDs (ids : List BlockID) (c : Cell) : Row c → Bool :=
  match c with
  | .block _ => fun r => ids.contains r.id
  | _ => fun _ => false

/-- `deleteIndexedBlocks` between `startDBTransaction` and `commitDBTransaction`. -/
def deleteIndexedBlocksTrx (env : Env) (view : DeletionView) (blocks : List (ℕ × BlockRow)) :
    Prog Unit := do
  Async.serial ((mapOrder blocks).map fun (height, row) => deleteBlock env view height row)
  Session.exec .dbTrx (Table.deleteWhere (blocksWithIDs (blocks.map (·.2.id))))

/-- `deleteIndexedBlocks(job)`. -/
def deleteIndexedBlocks (env : Env) (view : DeletionView) (fault : Option ℕ)
    (heights : List ℕ) (db : DB) : Except Failure Unit × DB :=
  Session.transact fault outsideFailure
    (deleteIndexedBlocksTrx env view (getBlocksToDelete heights db)) db

/-! ### What the job may change -/

section Footprints

open Session

variable {env : Env} {header : BlockHeader} {events : List Event} {W : Conn → Cell → Prop}

theorem revertTransactions_confined {txs : List IndexedTx}
    (h : ∀ tx ∈ txs, tx.isSuccessful = true →
      ∀ conn c, processorWrites env tx.params conn c → W conn c) :
    Confined (Respects W) (revertTransactions env header events txs) := by
  refine Confined.serial fun p hp => ?_
  obtain ⟨tx, htx, rfl⟩ := List.mem_map.mp hp
  exact revertTransaction_confined (h tx (Async.mem_mapOrder.mp htx))

theorem deleteBlockEvents_confined
    (hev : ∀ c, c.table = .events ∨ c.table = .eventTopics → W .dbTrx c)
    (hval : W .dbTrx (.validator header.generatorAddress))
    (hlock : ∀ t ∈ lockedTokens events, W .dbTrx (.kv (.totalLocked t))) :
    Confined (Respects W) (deleteBlockEvents env header events) := by
  rw [deleteBlockEvents]
  split
  · exact confined_pure ()
  · refine (deleteEvents_confined events hev).bind fun _ =>
      (updateGeneratorRewards_confined (-1) header events hval).bind fun _ =>
      updateTotalLockedAmounts_confined _ _ fun t ht => hlock t ?_
    simpa [lockedAmountChangeMap, Function.comp_def] using ht

private theorem transactionsOfBlock_table {id : BlockID} {db : DB} (c : Cell) (r : Row c)
    (h : transactionsOfBlock id db c r = true) : c.table = .transactions := by
  cases c with
  | transaction txID => rfl
  | _ => exact absurd h Bool.false_ne_true

theorem deleteTransactionRows_confined (id : BlockID) (db : DB)
    (h : ∀ c, c.table = .transactions → W .dbTrx c) :
    Confined (Respects W)
      (Session.exec .dbTrx (Table.deleteWhere (transactionsOfBlock id db)) : Prog Unit) :=
  Table.confined_deleteWhere fun c r hc => h c (transactionsOfBlock_table c r hc)

/-- Reverting a block does not write the table `blocks`. -/
theorem deleteBlock_confined {view : DeletionView} {height : ℕ} {row : BlockRow} :
    Confined (Respects outsideBlocks) (deleteBlock env view height row) := by
  have hprice : ∀ conn c, priceWrites conn c → outsideBlocks conn c := by
    intro conn c hw hb
    simp [priceWrites, hb] at hw
  have hswap : ∀ conn c, swapWrites conn c → outsideBlocks conn c := by
    intro conn c hw hb
    cases conn <;> simp [swapWrites, hb] at hw
  refine Table.confined_find.bind fun found => ?_
  split
  · exact confined_pure ()
  refine (confined_query _ _).bind fun txs => (confined_ofOption _ _).bind fun txs =>
    (revertTransactions_confined ?_).bind fun _ => (confined_query _ _).bind fun db =>
    (deleteTransactionRows_confined _ _ ?_).bind fun _ => (Table.confined_modify ?_).bind fun _ =>
    (deleteBlockEvents_confined ?_ ?_ ?_).bind fun _ => Confined.bind
      ((revertSwapEvent_confined _ _).widen hswap) fun _ =>
      (deletePriceIndex_confined _).widen hprice
  · exact fun tx _ _ conn c hw => processorWrites_outsideBlocks hw
  · exact fun c hc => by simp [outsideBlocks, hc]
  · simp [outsideBlocks, Cell.table]
  · rintro c (hc | hc) <;> simp [outsideBlocks, hc]
  · simp [outsideBlocks, Cell.table]
  · exact fun t _ => by simp [outsideBlocks, Cell.table]

end Footprints

end SwaptoshiService
