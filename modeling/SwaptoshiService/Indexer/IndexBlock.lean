import Mathlib.Data.Finset.Lattice.Fold
import Mathlib.Order.Lattice.Nat
import SwaptoshiService.Indexer.GenesisBlock
import SwaptoshiService.Indexer.PriceIndexer
import SwaptoshiService.Indexer.SwapProcess
import SwaptoshiService.Processor.Scope

/-!
# The job `indexBlock`

`indexBlock` (`indexer/blockchainIndex.js`) in two parts: `chooseBlock` reads the `blocks` table
and the node and decides what the job does, and `indexBlockTrx` is everything between
`startDBTransaction` and `commitDBTransaction`. The whole job commits when the second part
succeeds and rolls back when it fails anywhere; an outside failure (a lost connection, a
deadlock) is a fault after some number of atomic steps.

The transactions of the block are processed concurrently, with as many at a time as there are.
-/

namespace SwaptoshiService

open Async (ofOption)

/-! ### The transaction of the job -/

/-- The error of `getTransactionExecutionStatus`. -/
def eventUnavailable (txID : TxID) : Failure :=
  .error ("Event unavailable to determine execution status for transaction: " ++ txID ++
    ".\nEnsure that you have set 'system.keepEventsForHeights: -1' in your node config before " ++
    "syncing it with the network.")

/-- The transaction as `indexBlock` hands it to the processors. -/
def indexedTx (env : Env) (index : ℕ) (tx : Transaction) (status : ExecutionStatus) :
    IndexedTx :=
  { tx with
    index
    senderAddress := some (env.addressFromPublicKey tx.senderPublicKey)
    executionStatus := status }

/-- The function `indexBlock` maps over the transactions of a block. -/
def processTransaction (env : Env) (header : BlockHeader) (events : List Event)
    (tx : Transaction) (index : ℕ) : Prog Unit := do
  let status ← ofOption (eventUnavailable tx.id) (getTransactionExecutionStatus tx events)
  let tx := indexedTx env index tx status
  Table.upsert .dbTrx (.transaction tx.id)
    (setTransaction header tx (env.addressFromPublicKey tx.senderPublicKey))
  applyTransaction env header events tx

/-- The functions for all transactions of a block, in block order. -/
def transactionPrograms (env : Env) (header : BlockHeader) (events : List Event)
    (txs : List Transaction) : List (Prog Unit) :=
  txs.mapIdx fun index tx => processTransaction env header events tx index

/-- Process the transactions concurrently. -/
def processTransactions (env : Env) (sched : List ℕ) (header : BlockHeader)
    (events : List Event) (txs : List Transaction) : Prog Unit :=
  Async.interleave sched (transactionPrograms env header events txs)

/-- The part of the job that is skipped for a block without events. -/
def indexBlockEvents (env : Env) (header : BlockHeader) (events : List Event) : Prog Unit :=
  if events.isEmpty then pure ()
  else do
    indexEvents env header events
    updateGeneratorRewards 1 header events
    updateTotalLockedAmounts (env.sched (.lockedAmounts header.id))
      (lockedAmountChangeMap 1 events)

/-- The row of `blocks`. -/
def blockRow (block : Block) (events : List Event) : BlockRow :=
  { id := block.header.id
    timestamp := block.header.timestamp
    generatorAddress := block.header.generatorAddress
    size := block.header.size
    isFinal := block.header.isFinal
    assetsModules := block.assetsModules
    numberOfEvents := events.length
    reward := blockReward events }

/-- The genesis block brings its assets. -/
def indexGenesisAssets (env : Env) (assets : GenesisAssets) (header : BlockHeader) : Prog Unit :=
  if header.height = env.genesisHeight then Genesis.indexGenesisBlockAssets env header assets
  else pure ()

/-- The price index, which the genesis block has none of. -/
def indexPrices (env : Env) (header : BlockHeader) : Prog Unit :=
  if header.height = env.genesisHeight then pure () else addPriceIndex env header

/-- Everything before the `blocks` row is written. -/
def indexBlockBody (env : Env) (order : List ℕ) (assets : GenesisAssets) (block : Block)
    (events : List Event) : Prog Unit := do
  indexGenesisAssets env assets block.header
  processTransactions env order block.header events block.transactions
  incrementGeneratedBlocks block.header.generatorAddress
  indexBlockEvents env block.header events
  indexPrices env block.header
  applySwapEvent env (env.sched (.swapEvents block.header.id)) block.header events

/-- `indexBlock` between `startDBTransaction` and `commitDBTransaction`. -/
def indexBlockTrx (env : Env) (order : List ℕ) (assets : GenesisAssets) (block : Block)
    (events : List Event) : Prog Unit := do
  indexBlockBody env order assets block events
  Table.upsert .dbTrx (.block block.header.height) fun _ => blockRow block events

/-! ### Choosing the block -/

/-- The height of a block cell. -/
def Cell.height : Cell → ℕ
  | .block h => h
  | _ => 0

/-- `blocksTable.find({ sort: 'height:desc', limit: 1 })`. -/
def lastIndexedHeight (db : DB) : Option ℕ :=
  (List.range (db.keys.sup Cell.height + 1)).reverse.find? fun h => (db.get (.block h)).isSome

/-- What the node answers during a job. -/
structure NodeView where
  /-- `getCurrentHeight()`. -/
  currentHeight : ℕ
  /-- `getBlockByHeight(height)`. -/
  block : ℕ → Option Block

/-- What `indexBlock` does with a job. -/
inductive Decision
  | skip
  | scheduleDeletion (height : ℕ) (id : BlockID)
  | index (block : Block)

/-- The height that is indexed: the last indexed one plus one, whatever the job asks for. -/
def heightToIndex (db : DB) (jobHeight : ℕ) : ℕ :=
  match lastIndexedHeight db with
  | some last => last + 1
  | none => jobHeight

/-- `indexBlock` before `startDBTransaction`. -/
def chooseBlock (env : Env) (node : NodeView) (jobHeight : ℕ) (db : DB) :
    Except Failure Decision :=
  let last := lastIndexedHeight db
  let height := heightToIndex db jobHeight
  -- Skip job run if the height to be indexed does not exist
  if last.isSome ∧ node.currentHeight < height then .ok .skip
  else
    let current : Option BlockRow := db.get (.block height)
    match node.block height with
    | none => .error .typeError
    | some block =>
      match current.filter fun r => block.header.id ≠ r.id with
      | some r => .ok (.scheduleDeletion height r.id)
      | none =>
        let proceed : Except Failure Decision :=
          if current.isSome ∧ last.any fun l => node.currentHeight ≤ l then .ok .skip
          else .ok (.index block)
        if env.genesisHeight + 1 < height then
          match (db.get (.block (height - 1)) : Option BlockRow) with
          -- `Object.keys(undefined)`
          | none => .error .typeError
          | some prev =>
            if prev.id ≠ block.header.previousBlockID then
              .ok (.scheduleDeletion (height - 1) prev.id)
            else proceed
        else proceed

/-- When `indexBlock` goes on to index a block, the node holds it at the next height, and its
parent is the last indexed row. -/
theorem chooseBlock_index {env : Env} {node : NodeView} {jobHeight : ℕ} {db : DB}
    {block : Block} (h : chooseBlock env node jobHeight db = .ok (.index block)) :
    node.block (heightToIndex db jobHeight) = some block ∧
      (env.genesisHeight + 1 < heightToIndex db jobHeight → ∃ prev,
        db.get (.block (heightToIndex db jobHeight - 1)) = some prev ∧
          prev.id = block.header.previousBlockID) := by
  rw [chooseBlock] at h
  dsimp only at h
  generalize heightToIndex db jobHeight = height at h ⊢
  split at h
  · simp at h
  cases hnode : node.block height with
  | none => simp [hnode] at h
  | some b =>
    simp only [hnode] at h
    split at h
    · simp at h
    split at h
    · cases hprev : (db.get (.block (height - 1)) : Option BlockRow) with
      | none => simp [hprev] at h
      | some prev =>
        simp only [hprev] at h
        split at h
        · simp at h
        · rename_i hid
          split at h
          · simp at h
          obtain rfl : b = block := by simpa using h
          exact ⟨rfl, fun _ => ⟨prev, rfl, not_not.mp hid⟩⟩
    · rename_i hlow
      split at h
      · simp at h
      obtain rfl : b = block := by simpa using h
      exact ⟨rfl, fun hlt => absurd hlt hlow⟩

/-- A row that is already there at this height carries the identifier of the block. -/
theorem chooseBlock_current {env : Env} {node : NodeView} {jobHeight : ℕ} {db : DB}
    {block : Block} (h : chooseBlock env node jobHeight db = .ok (.index block)) {r : BlockRow}
    (hr : db.get (.block (heightToIndex db jobHeight)) = some r) : r.id = block.header.id := by
  have hblock := (chooseBlock_index h).1
  rw [chooseBlock] at h
  dsimp only at h
  split at h
  · simp at h
  simp only [hblock, hr] at h
  by_contra hne
  have hfilter : (some r).filter (fun r => decide (block.header.id ≠ r.id)) = some r := by
    simp [Option.filter, Ne.symm hne]
  rw [hfilter] at h
  simp at h

/-- What an outside failure throws. -/
def outsideFailure : Failure := .error "ER_LOCK_DEADLOCK"

/-- `indexBlock(job)`: the outcome and the tables it leaves behind. `order` is the order in
which the concurrent steps of the transactions are made, `events` answers `getEventsByHeight`
for the block that is indexed. -/
def indexBlock (env : Env) (order : List ℕ) (node : NodeView) (assets : GenesisAssets)
    (events : Block → List Event) (fault : Option ℕ) (jobHeight : ℕ) (db : DB) :
    Except Failure Decision × DB :=
  match chooseBlock env node jobHeight db with
  | .ok (.index block) =>
    let (result, db') :=
      Session.transact fault outsideFailure
        (indexBlockTrx env order assets block (events block)) db
    (result.map fun _ => .index block, db')
  | other => (other, db)

/-! ### What the job may change -/

section Footprints

open Session

variable {env : Env} {header : BlockHeader} {events : List Event} {W : Conn → Cell → Prop}

/-- The function of a transaction writes its row, and what the hook of its command writes if it
succeeded. -/
theorem processTransaction_sends {P : Conn → Stmt → Prop} {tx : Transaction} {index : ℕ}
    (htx : ∀ set, P .dbTrx (Table.upsertRow (.transaction tx.id) set))
    (hcmd : getTransactionExecutionStatus tx events = some .successful →
      Confined P (applyTransaction env header events (indexedTx env index tx .successful))) :
    Confined P (processTransaction env header events tx index) := by
  rw [processTransaction]
  cases hstatus : getTransactionExecutionStatus tx events with
  | none => exact confined_throw _
  | some status =>
    refine (confined_exec (htx _)).bind fun _ => ?_
    cases status with
    | successful => exact hcmd hstatus
    | failed =>
      rw [applyTransaction_of_failed (by simp [IndexedTx.isSuccessful, indexedTx])]
      exact confined_pure ()

theorem processTransaction_confined {tx : Transaction} {index : ℕ}
    (htx : W .dbTrx (.transaction tx.id))
    (hcmd : getTransactionExecutionStatus tx events = some .successful →
      ∀ conn c, processorWrites env tx.params conn c → W conn c) :
    Confined (Respects W) (processTransaction env header events tx index) := by
  refine processTransaction_sends (fun set => ?_) fun hs => ?_
  · exact fun c hc => Table.upsertRow_fixes fun heq => hc (heq ▸ htx)
  · exact applyTransaction_confined fun _ => hcmd hs

theorem processTransactions_confined {order : List ℕ} {txs : List Transaction}
    (htx : ∀ tx ∈ txs, W .dbTrx (.transaction tx.id))
    (hcmd : ∀ tx ∈ txs, getTransactionExecutionStatus tx events = some .successful →
      ∀ conn c, processorWrites env tx.params conn c → W conn c) :
    Confined (Respects W) (processTransactions env order header events txs) := by
  refine Confined.interleave fun p hp => ?_
  obtain ⟨i, hi, rfl⟩ := List.mem_mapIdx.mp hp
  exact processTransaction_confined (htx _ (List.getElem_mem hi)) (hcmd _ (List.getElem_mem hi))

theorem indexBlockEvents_confined
    (hev : ∀ c, c.table = .events ∨ c.table = .eventTopics → W .dbTrx c)
    (hval : W .dbTrx (.validator header.generatorAddress))
    (hlock : ∀ t ∈ lockedTokens events, W .dbTrx (.kv (.totalLocked t))) :
    Confined (Respects W) (indexBlockEvents env header events) := by
  rw [indexBlockEvents]
  split
  · exact confined_pure ()
  · refine (indexEvents_confined header events hev).bind fun _ =>
      (updateGeneratorRewards_confined 1 header events hval).bind fun _ =>
      updateTotalLockedAmounts_confined _ _ fun t ht => hlock t ?_
    simpa [lockedAmountChangeMap, Function.comp_def] using ht

/-- Every cell outside the table `blocks`. -/
def outsideBlocks : Conn → Cell → Prop := fun _ c => c.table ≠ .blocks

theorem processorWrites_outsideBlocks {cmd : Command} {conn : Conn} {c : Cell}
    (h : processorWrites env cmd conn c) : outsideBlocks conn c := by
  intro hc
  rcases processorWrites_table h with ht | ht
  · simp [hc] at ht
  · simp [hc, processorTables] at ht

theorem indexGenesisAssets_confined (assets : GenesisAssets)
    (h : header.height = env.genesisHeight →
      ∀ conn c, Genesis.genesisWrites assets.validators conn c → W conn c) :
    Confined (Respects W) (indexGenesisAssets env assets header) := by
  rw [indexGenesisAssets]
  split
  · exact (Genesis.indexGenesisBlockAssets_confined header assets).widen (h ‹_›)
  · exact confined_pure ()

theorem indexPrices_confined (h : ∀ conn c, priceWrites conn c → W conn c) :
    Confined (Respects W) (indexPrices env header) := by
  rw [indexPrices]
  split
  · exact confined_pure ()
  · exact (addPriceIndex_confined header).widen h

/-- Before the last statement of the job, the table `blocks` is not written. -/
theorem indexBlockBody_confined {order : List ℕ} {assets : GenesisAssets} {block : Block} :
    Confined (Respects outsideBlocks) (indexBlockBody env order assets block events) := by
  have hgenesis : ∀ conn c, Genesis.genesisWrites assets.validators conn c →
      outsideBlocks conn c := by
    intro conn c hw hb
    cases conn <;> simp [Genesis.genesisWrites, hb] at hw
  have hprice : ∀ conn c, priceWrites conn c → outsideBlocks conn c := by
    intro conn c hw hb
    simp [priceWrites, hb] at hw
  have hswap : ∀ conn c, swapWrites conn c → outsideBlocks conn c := by
    intro conn c hw hb
    cases conn <;> simp [swapWrites, hb] at hw
  refine (indexGenesisAssets_confined assets fun _ => hgenesis).bind fun _ =>
    Confined.bind (processTransactions_confined ?_ ?_) fun _ =>
    (incrementGeneratedBlocks_confined _ ?_).bind fun _ =>
    (indexBlockEvents_confined ?_ ?_ ?_).bind fun _ =>
    (indexPrices_confined hprice).bind fun _ =>
    (applySwapEvent_confined _ events).widen hswap
  · exact fun tx _ => by simp [outsideBlocks, Cell.table]
  · exact fun tx _ _ conn c hw => processorWrites_outsideBlocks hw
  · simp [outsideBlocks, Cell.table]
  · rintro c (hc | hc) <;> simp [outsideBlocks, hc]
  · simp [outsideBlocks, Cell.table]
  · exact fun t _ => by simp [outsideBlocks, Cell.table]

end Footprints

end SwaptoshiService
